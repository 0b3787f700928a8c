import ComplexCalc.Session.Line
import Mathlib.Data.List.TakeWhile

/-! The three shapes of a line, told apart by where its first equals sign stands, the heads of
definitions, and the lines with something else before that sign. -/

namespace ComplexCalc.Line
variable {ts head body : List Token} {ps : List String} {name : String}

theorem bne_equals_of_not_mem (h : .equals ∉ ts) : ∀ t ∈ ts, (t != Token.equals) = true := by
  intro t ht
  rw [bne_iff_ne]
  rintro rfl
  exact h ht

theorem ofTokens_of_not_mem (h : .equals ∉ ts) : ofTokens ts = .expression ts := by
  rw [ofTokens, List.dropWhile_eq_nil_iff.2 (bne_equals_of_not_mem h)]

theorem takeWhile_head (h : .equals ∉ head) :
    (head ++ Token.equals :: body).takeWhile (· != .equals) = head := by
  rw [List.takeWhile_append_of_pos (bne_equals_of_not_mem h),
    List.takeWhile_cons_of_neg (by simp), List.append_nil]

theorem dropWhile_head (h : .equals ∉ head) :
    (head ++ Token.equals :: body).dropWhile (· != .equals) = .equals :: body := by
  rw [List.dropWhile_append_of_pos (bne_equals_of_not_mem h),
    List.dropWhile_cons_of_neg (by simp)]

theorem ofTokens_assignment {target : Token} (h : target ≠ .equals) (body : List Token) :
    ofTokens (target :: .equals :: body) = .assignment target body := by
  have hhead : Token.equals ∉ [target] := by
    rw [List.mem_singleton]
    exact h.symm
  have hts : target :: .equals :: body = [target] ++ .equals :: body := rfl
  rw [hts, ofTokens, takeWhile_head hhead, dropWhile_head hhead]

theorem ofTokens_definition (h : .equals ∉ head) (hlen : head.length ≠ 1) (body : List Token) :
    ofTokens (head ++ .equals :: body) = .definition head body := by
  rw [ofTokens, takeWhile_head h, dropWhile_head h]
  dsimp only
  split
  · exact absurd rfl hlen
  · rfl

theorem shape_cases (ts : List Token) :
    .equals ∉ ts ∨
    (∃ target body, target ≠ .equals ∧ ts = target :: .equals :: body) ∨
    ∃ head body, .equals ∉ head ∧ head.length ≠ 1 ∧ ts = head ++ .equals :: body := by
  by_cases h : .equals ∈ ts
  · obtain ⟨head, body, hts, hhead⟩ := List.eq_append_cons_of_mem h
    by_cases hlen : head.length = 1
    · obtain ⟨target, rfl⟩ := List.length_eq_one_iff.1 hlen
      exact .inr (.inl ⟨target, body, by simpa [eq_comm] using hhead, hts⟩)
    · exact .inr (.inr ⟨head, body, hhead, hlen, hts⟩)
  · exact .inl h

def listing (ps : List String) : List Token := (ps.map Token.ident).intersperse .comma

def heading (name : String) (ps : List String) : List Token :=
  .ident name :: .lparen :: (listing ps ++ [.rparen])

theorem listing_cons_cons (p q : String) (ps : List String) :
    listing (p :: q :: ps) = .ident p :: .comma :: listing (q :: ps) := rfl

theorem listing_ne_nil (h : ps ≠ []) : listing ps ≠ [] := by
  obtain ⟨p, ps, rfl⟩ := List.exists_cons_of_ne_nil h
  cases ps <;> exact List.cons_ne_nil _ _

theorem mem_listing {p : String} (h : p ∈ ps) : .ident p ∈ listing ps := by
  induction ps with
  | nil => cases h
  | cons q ps ih =>
    cases ps with
    | nil =>
      obtain rfl := List.mem_singleton.1 h
      exact List.mem_cons_self
    | cons r ps =>
      rw [listing_cons_cons]
      rcases List.mem_cons.1 h with rfl | h
      · exact List.mem_cons_self
      · exact List.mem_cons_of_mem _ (List.mem_cons_of_mem _ (ih h))

theorem names?_eq_some_iff : names? ts = some ps ↔ ps ≠ [] ∧ ts = listing ps := by
  fun_induction names? ts generalizing ps with
  | case1 name =>
    rcases ps with _ | ⟨p, _ | ⟨q, ps⟩⟩
    · simp
    · simp [listing]
    · simp [listing_cons_cons]
  | case2 name rest ih =>
    rw [Option.map_eq_some_iff]
    constructor
    · rintro ⟨names, hnames, rfl⟩
      obtain ⟨hne, rfl⟩ := ih.1 hnames
      obtain ⟨q, names, rfl⟩ := List.exists_cons_of_ne_nil hne
      exact ⟨List.cons_ne_nil _ _, rfl⟩
    · rintro ⟨hne, hts⟩
      rcases ps with _ | ⟨p, _ | ⟨q, ps⟩⟩
      · exact absurd rfl hne
      · cases hts
      · rw [listing_cons_cons] at hts
        obtain ⟨hname, hrest⟩ := List.cons.inj hts
        cases hname
        exact ⟨q :: ps, ih.2 ⟨List.cons_ne_nil _ _, (List.cons.inj hrest).2⟩, rfl⟩
  | case3 ts hone hmany =>
    simp only [reduceCtorEq, false_iff, not_and]
    intro hne hts
    rcases ps with _ | ⟨p, _ | ⟨q, ps⟩⟩
    · exact hne rfl
    · exact hone p hts
    · exact hmany p _ hts

theorem parameters?_eq_some_iff : parameters? ts = some ps ↔ ps.Nodup ∧ ts = listing ps := by
  unfold parameters?
  split
  · constructor
    · intro h
      cases h
      exact ⟨List.nodup_nil, rfl⟩
    · rintro ⟨-, hts⟩
      by_contra hne
      exact listing_ne_nil (fun hps => hne (by rw [hps])) hts.symm
  · rename_i hne
    rw [Option.filter_eq_some_iff, names?_eq_some_iff, decide_eq_true_iff]
    constructor
    · rintro ⟨⟨-, hts⟩, hnodup⟩
      exact ⟨hnodup, hts⟩
    · rintro ⟨hnodup, hts⟩
      refine ⟨⟨?_, hts⟩, hnodup⟩
      rintro rfl
      exact hne hts

theorem signature?_eq_some_iff :
    signature? ts = some (name, ps) ↔ ps.Nodup ∧ ts = heading name ps := by
  unfold signature?
  split
  · rename_i name' rest
    split
    · rename_i hlast
      obtain ⟨init, rfl⟩ := List.getLast?_eq_some_iff.1 hlast
      rw [List.dropLast_concat, Option.map_eq_some_iff]
      constructor
      · rintro ⟨ps', hps, heq⟩
        cases heq
        obtain ⟨hnodup, rfl⟩ := parameters?_eq_some_iff.1 hps
        exact ⟨hnodup, rfl⟩
      · rintro ⟨hnodup, hts⟩
        obtain ⟨hname, htail⟩ := List.cons.inj hts
        cases hname
        have hinit := (List.append_inj' (List.cons.inj htail).2 rfl).1
        exact ⟨ps, parameters?_eq_some_iff.2 ⟨hnodup, hinit⟩, rfl⟩
    · rename_i hlast
      simp only [reduceCtorEq, false_iff, not_and]
      intro _ hts
      obtain ⟨-, htail⟩ := List.cons.inj hts
      apply hlast
      rw [(List.cons.inj htail).2, List.getLast?_concat]
  · rename_i hshape
    simp only [reduceCtorEq, false_iff, not_and]
    exact fun _ h => hshape _ _ h

theorem heading_injective {name' : String} {ps' : List String}
    (h : heading name ps = heading name' ps') : name = name' ∧ ps = ps' := by
  obtain ⟨hname, htail⟩ := List.cons.inj h
  have hlisting := (List.append_inj' (List.cons.inj htail).2 rfl).1
  refine ⟨Token.ident.inj hname, ?_⟩
  by_cases hps : ps = []
  · subst hps
    by_contra hne
    exact listing_ne_nil (Ne.symm hne) hlisting.symm
  · have hread : names? (listing ps) = some ps := names?_eq_some_iff.2 ⟨hps, rfl⟩
    rw [hlisting] at hread
    have hps' : ps' ≠ [] := by
      rintro rfl
      exact listing_ne_nil hps hlisting
    rw [names?_eq_some_iff.2 ⟨hps', rfl⟩] at hread
    exact (Option.some.inj hread).symm

theorem equals_not_mem_heading : .equals ∉ heading name ps := by
  have hlisting : Token.equals ∉ listing ps := by
    induction ps with
    | nil => simp [listing]
    | cons p ps ih => cases ps <;> simp_all [listing]
  simp [heading, hlisting]

theorem heading_append_injective {name' : String} {ps' : List String} {body' : List Token}
    (h : heading name ps ++ .equals :: body = heading name' ps' ++ .equals :: body') :
    name = name' ∧ ps = ps' := by
  have hheads := congrArg (List.takeWhile (· != .equals)) h
  rw [takeWhile_head equals_not_mem_heading, takeWhile_head equals_not_mem_heading] at hheads
  exact heading_injective hheads

theorem length_heading_ne_one : (heading name ps).length ≠ 1 := by
  simp [heading]

def Misassigned (ts : List Token) : Prop :=
  ∃ t body, t ≠ .equals ∧ (∀ name, t ≠ .ident name) ∧ ts = t :: .equals :: body

/-- Whether the first equals sign is not the second token, and the tokens before it are not a name
and distinct parameters in parentheses. -/
def Misdefined (ts : List Token) : Prop :=
  ∃ head body, .equals ∉ head ∧ head.length ≠ 1 ∧
    (∀ name ps, ps.Nodup → head ≠ heading name ps) ∧ ts = head ++ .equals :: body

inductive Form : List Token → Prop
  | expression {ts : List Token} : .equals ∉ ts → Form ts
  | assignment (name : String) (body : List Token) : Form (.ident name :: .equals :: body)
  | definition (name : String) {ps : List String} (body : List Token) :
      ps.Nodup → Form (heading name ps ++ .equals :: body)
  | misassigned {ts : List Token} : Misassigned ts → Form ts
  | misdefined {ts : List Token} : Misdefined ts → Form ts

theorem form (ts : List Token) : Form ts := by
  rcases shape_cases ts with hno | ⟨target, body, ht, rfl⟩ | ⟨head, body, hhead, hlen, rfl⟩
  · exact .expression hno
  · by_cases hname : ∃ name, target = .ident name
    · obtain ⟨name, rfl⟩ := hname
      exact .assignment name body
    · exact .misassigned ⟨target, body, ht, not_exists.1 hname, rfl⟩
  · by_cases hheading : ∃ name ps, ps.Nodup ∧ head = heading name ps
    · obtain ⟨name, ps, hps, rfl⟩ := hheading
      exact .definition name body hps
    · have hnot : ∀ name ps, ps.Nodup → head ≠ heading name ps :=
        fun name ps hps heq => hheading ⟨name, ps, hps, heq⟩
      exact .misdefined ⟨head, body, hhead, hlen, hnot, rfl⟩

end ComplexCalc.Line
