import ComplexCalc.Proofs.Expr.Labels
import ComplexCalc.Proofs.Grammar.Parsing

/-! What is printed for a tree determines the tree. The lines of a text are told apart by their
ends, the depth of a line by the spaces before its label, and the children of a node reach as far as
the lines stay below it; the label tells the node itself. -/

namespace ComplexCalc

theorem append_inj_of_takeWhile {α : Type} {p : α → Bool} {as as' bs bs' : List α}
    (has : ∀ c ∈ as, p c = true) (has' : ∀ c ∈ as', p c = true)
    (hbs : ∀ c ∈ bs.head?, p c = false) (hbs' : ∀ c ∈ bs'.head?, p c = false)
    (h : as ++ bs = as' ++ bs') : as = as' ∧ bs = bs' := by
  have ends {xs ys : List α} (hxs : ∀ c ∈ xs, p c = true) (hys : ∀ c ∈ ys.head?, p c = false) :
      (xs ++ ys).takeWhile p = xs := by
    rw [List.takeWhile_append_of_pos hxs]
    cases ys with
    | nil => simp
    | cons y ys => simp [hys y rfl]
  have heq : as = as' := by rw [← ends has hbs, h, ends has' hbs']
  exact ⟨heq, List.append_cancel_left (heq ▸ h)⟩

namespace Expr
variable {P : Token → Prop} {e e' : Expr} {es : List Expr} {depth : Nat} {r : List (Nat × String)}

def root : Expr → Node
  | number z => .number z
  | constant c => .constant c
  | call name args => .call name args.length
  | builtin f args => .builtin f args.length
  | binary o _ _ => .binary o

def children : Expr → List Expr
  | number _ | constant _ => []
  | call _ args | builtin _ args => args
  | binary _ lhs rhs => [lhs, rhs]

theorem nodes_eq (e : Expr) : e.nodes = e.root :: nodesAll e.children := by
  cases e <;> simp [nodes, nodesAll, root, children]

theorem outlines_cons (depth : Nat) (e : Expr) (es : List Expr) :
    outlines depth (e :: es) =
      (depth, e.root.label) :: (outlines (depth + 1) e.children ++ outlines depth es) := by
  cases e <;> simp [outlines, outline, root, children, Node.label]

theorem outlines_singleton (depth : Nat) (e : Expr) : outlines depth [e] = outline depth e := by
  rw [outlines, outlines, List.append_nil]

theorem madeOf_iff : e.MadeOf P ↔ e.root.MadeOf P ∧ AllMadeOf P e.children := by
  rw [MadeOf, nodes_eq, List.forall_mem_cons, AllMadeOf]

theorem eq_of_root (hreal : e.root.IsReal) (hreal' : e'.root.IsReal)
    (htoken : e.root.token = e'.root.token) (hchildren : e.children = e'.children) : e = e' := by
  cases e with
  | number z =>
    cases e' with
    | number w =>
      -- the token only has the real part, so that the other one is zero has to be known
      obtain ⟨x, y⟩ := z
      obtain ⟨x', y'⟩ := w
      obtain rfl : y = 0 := hreal
      obtain rfl : y' = 0 := hreal'
      cases htoken
      rfl
    | _ => cases htoken
  | constant c =>
    cases e' with
    | constant c' =>
      cases htoken
      rfl
    | _ => cases htoken
  | call name args =>
    cases e' with
    | call name' args' =>
      cases htoken
      cases hchildren
      rfl
    | _ => cases htoken
  | builtin f args =>
    cases e' with
    | builtin f' args' =>
      cases htoken
      cases hchildren
      rfl
    | _ => cases htoken
  | binary o lhs rhs =>
    cases e' with
    | binary o' lhs' rhs' =>
      cases htoken
      cases hchildren
      rfl
    | _ => cases htoken

@[elab_as_elim]
theorem forest_induction {motive : List Expr → Prop} (nil : motive [])
    (cons : ∀ e es, motive e.children → motive es → motive (e :: es)) (es : List Expr) :
    motive es := by
  match es with
  | [] => exact nil
  | e :: es => exact cons e es (forest_induction nil cons e.children) (forest_induction nil cons es)
termination_by (nodesAll es).length
decreasing_by all_goals simp only [nodesAll, nodes_eq, List.length_append, List.length_cons]; omega

/-- Whether the lines go on above a depth, or end. -/
def Above (depth : Nat) (r : List (Nat × String)) : Prop := ∀ line ∈ r.head?, line.1 < depth

theorem Above.outlines (h : Above depth r) (es : List Expr) :
    Above (depth + 1) (outlines depth es ++ r) := by
  cases es with
  | nil => exact fun line hline => Nat.lt_succ_of_lt (h line hline)
  | cons e es =>
    rw [outlines_cons]
    rintro line ⟨⟩
    exact Nat.lt_succ_self depth

theorem Above.ne_outlines (h : Above depth r) (e : Expr) (es : List Expr)
    (r' : List (Nat × String)) : r ≠ Expr.outlines depth (e :: es) ++ r' := by
  rw [outlines_cons]
  rintro rfl
  exact Nat.lt_irrefl depth (h _ rfl)

theorem above_nil : Above depth [] := by
  intro line hline
  cases hline

theorem outlines_append_inj {es es' : List Expr} {r r' : List (Nat × String)}
    (hes : AllMadeOf Token.Printable es) (hes' : AllMadeOf Token.Printable es')
    (hr : Above depth r) (hr' : Above depth r')
    (h : outlines depth es ++ r = outlines depth es' ++ r') : es = es' ∧ r = r' := by
  induction es using forest_induction generalizing es' depth r r' with
  | nil =>
    cases es' with
    | nil => exact ⟨rfl, h⟩
    | cons e' es' => exact absurd h (hr.ne_outlines e' es' r')
  | cons e es ihchildren ihes =>
    cases es' with
    | nil => exact absurd h.symm (hr'.ne_outlines e es r)
    | cons e' es' =>
      obtain ⟨he, hes⟩ := allMadeOf_cons.1 hes
      obtain ⟨he', hes'⟩ := allMadeOf_cons.1 hes'
      obtain ⟨hroot, hchildren⟩ := madeOf_iff.1 he
      obtain ⟨hroot', hchildren'⟩ := madeOf_iff.1 he'
      simp only [outlines_cons, List.cons_append, List.append_assoc, List.cons.injEq,
        Prod.mk.injEq, true_and] at h
      obtain ⟨hlabel, hlines⟩ := h
      -- the other trees begin above the children of the first, which therefore end there
      obtain ⟨heq, hrest⟩ :=
        ihchildren hchildren hchildren' (hr.outlines es) (hr'.outlines es') hlines
      obtain ⟨rfl, hafter⟩ := ihes hes hes' hr hr' hrest
      have htoken := Node.token_eq_of_label hroot hroot' hlabel
      exact ⟨congrArg (· :: es) (eq_of_root hroot.isReal hroot'.isReal htoken heq), hafter⟩

theorem outline_inj (he : e.MadeOf Token.Printable) (he' : e'.MadeOf Token.Printable)
    (h : e.outline 0 = e'.outline 0) : e = e' := by
  have hlines : outlines 0 [e] ++ [] = outlines 0 [e'] ++ [] := by
    rw [outlines_singleton, outlines_singleton, h]
  obtain ⟨heq, -⟩ := outlines_append_inj he.singleton he'.singleton above_nil above_nil hlines
  exact (List.cons.inj heq).1

def Solid (line : Nat × String) : Prop := ∀ c ∈ line.2.toList, Text.isBlank c = false

theorem solid_outlines (hes : AllMadeOf Token.Printable es) :
    ∀ line ∈ outlines depth es, Solid line := by
  induction es using forest_induction generalizing depth with
  | nil => nofun
  | cons e es ihchildren ihes =>
    obtain ⟨he, hes⟩ := allMadeOf_cons.1 hes
    obtain ⟨hroot, hchildren⟩ := madeOf_iff.1 he
    rw [outlines_cons]
    exact List.forall_mem_cons.2 ⟨Node.label_not_blank hroot,
      List.forall_mem_append.2 ⟨ihchildren hchildren, ihes hes⟩⟩

def lineChars (line : Nat × String) : List Char :=
  List.replicate (2 * line.1) ' ' ++ line.2.toList

theorem Solid.ne_of_isBlank {line : Nat × String} (h : Solid line) {b c : Char}
    (hb : Text.isBlank b = true) (hc : c ∈ line.2.toList) : c ≠ b := by
  rintro rfl
  rw [h c hc] at hb
  cases hb

theorem Solid.ne_newline {line : Nat × String} (h : Solid line) :
    ∀ c ∈ lineChars line, c ≠ '\n' := by
  refine List.forall_mem_append.2 ⟨fun c hc => ?_, fun c hc => h.ne_of_isBlank (by decide) hc⟩
  rw [List.eq_of_mem_replicate hc]
  decide

theorem lineChars_inj {line line' : Nat × String} (hline : Solid line) (hline' : Solid line')
    (h : lineChars line = lineChars line') : line = line' := by
  have spaces (n : Nat) : ∀ c ∈ List.replicate n ' ', (c == ' ') = true := by
    intro c hc
    exact beq_iff_eq.2 (List.eq_of_mem_replicate hc)
  have label {line : Nat × String} (hline : Solid line) :
      ∀ c ∈ line.2.toList.head?, (c == ' ') = false := by
    intro c hc
    exact beq_eq_false_iff_ne.2 (hline.ne_of_isBlank (by decide) (List.mem_of_mem_head? hc))
  obtain ⟨hspaces, hlabel⟩ :=
    append_inj_of_takeWhile (spaces _) (spaces _) (label hline) (label hline') h
  have hdepth : 2 * line.1 = 2 * line'.1 := by
    simpa only [List.length_replicate] using congrArg List.length hspaces
  exact Prod.ext (by omega) (String.toList_inj.1 hlabel)

def textChars (lines : List (Nat × String)) : List Char :=
  lines.flatMap fun line => lineChars line ++ ['\n']

theorem toList_dump (e : Expr) : e.dump.toList = textChars (e.outline 0) := by
  rw [dump, String.toList_join, List.flatMap_map, textChars]
  congr 1
  funext line
  simp only [String.toList_append, indent, String.toList_ofList, lineChars]
  rfl

theorem textChars_cons (line : Nat × String) (lines : List (Nat × String)) :
    textChars (line :: lines) = lineChars line ++ '\n' :: textChars lines := by
  rw [textChars, List.flatMap_cons, List.append_assoc]
  rfl

theorem textChars_ne_nil (line : Nat × String) (lines : List (Nat × String)) :
    textChars (line :: lines) ≠ [] := by
  simp [textChars_cons]

theorem textChars_inj {lines lines' : List (Nat × String)} (h : ∀ line ∈ lines, Solid line)
    (h' : ∀ line ∈ lines', Solid line) (heq : textChars lines = textChars lines') :
    lines = lines' := by
  have inside {line : Nat × String} (hline : Solid line) :
      ∀ c ∈ lineChars line, (c != '\n') = true :=
    fun c hc => bne_iff_ne.2 (hline.ne_newline c hc)
  induction lines generalizing lines' with
  | nil =>
    cases lines' with
    | nil => rfl
    | cons line' lines' => exact absurd heq.symm (textChars_ne_nil line' lines')
  | cons line lines ih =>
    cases lines' with
    | nil => exact absurd heq (textChars_ne_nil line lines)
    | cons line' lines' =>
      obtain ⟨hline, hlines⟩ := List.forall_mem_cons.1 h
      obtain ⟨hline', hlines'⟩ := List.forall_mem_cons.1 h'
      rw [textChars_cons, textChars_cons] at heq
      obtain ⟨hchars, hrest⟩ := append_inj_of_takeWhile (inside hline) (inside hline')
        (by simp) (by simp) heq
      rw [lineChars_inj hline hline' hchars, ih hlines hlines' (List.cons.inj hrest).2]

theorem solid_outline (he : e.MadeOf Token.Printable) : ∀ line ∈ e.outline 0, Solid line := by
  rw [← outlines_singleton]
  exact solid_outlines he.singleton

theorem dump_inj (he : e.MadeOf Token.Printable) (he' : e'.MadeOf Token.Printable)
    (h : e.dump = e'.dump) : e = e' := by
  have hchars : textChars (e.outline 0) = textChars (e'.outline 0) := by
    rw [← toList_dump, h, toList_dump]
  exact outline_inj he he' (textChars_inj (solid_outline he) (solid_outline he') hchars)

theorem madeOf_of_text {text : String} {ts : List Token} {diagnostics : Bool}
    (hts : tokenize text = .ok ts) (hfinite : ∀ x, .real x ∈ ts → x.isFinite = true)
    (he : ofTokens diagnostics ts = .ok e) : e.MadeOf Token.Printable := by
  have hzero : Token.Printable (.real 0) := by
    show Float.isFinite 0 = true ∧ Double.isNegative 0 = false
    exact ⟨by decide +kernel, by decide +kernel⟩
  refine (Grammar.ofTokens_eq_ok_iff.1 he).madeOf hzero fun t ht => ?_
  refine ((tokenize_eq_ok hts).1 t ht).printable ?_
  rintro x rfl
  exact (Double.not_isNaN_and_not_isInf (hfinite x ht)).2

/-- What is printed for the trees of texts tells them apart: texts with finite literals whose trees
are printed alike have the same tree. -/
theorem tree_eq_of_dump_eq {text text' : String} {ts ts' : List Token}
    {diagnostics diagnostics' : Bool} (hts : tokenize text = .ok ts)
    (hts' : tokenize text' = .ok ts')
    (hfinite : ∀ x, .real x ∈ ts → x.isFinite = true)
    (hfinite' : ∀ x, .real x ∈ ts' → x.isFinite = true)
    (he : ofTokens diagnostics ts = .ok e) (he' : ofTokens diagnostics' ts' = .ok e')
    (hdump : e.dump = e'.dump) : e = e' :=
  dump_inj (madeOf_of_text hts hfinite he) (madeOf_of_text hts' hfinite' he') hdump

def signed : List Token :=
  [.op .sub, .constant .pi, .op .mul, .ident "f", .lparen, .ident "x", .rparen]

theorem tree_eq_of_dump_eq_signed : ∃ e e' : Expr,
    tokenize "-π f(x)" = .ok signed ∧ tokenize "0 - pi * f(x)" = .ok (.real 0 :: signed) ∧
    ofTokens true signed = .ok e ∧ ofTokens false (.real 0 :: signed) = .ok e' ∧
    e.dump = "-\n  0\n  *\n    pi\n    f\n      x\n" ∧ e.dump = e'.dump ∧ e = e' := by
  have hts : tokenize "-π f(x)" = .ok signed := by decide +kernel
  have hts' : tokenize "0 - pi * f(x)" = .ok (.real 0 :: signed) := by decide +kernel
  have hfinite : ∀ x, .real x ∈ signed → x.isFinite = true := by simp [signed]
  have hfinite' : ∀ x, .real x ∈ .real 0 :: signed → x.isFinite = true := by
    intro x hx
    obtain rfl : x = 0 := by simpa [signed] using hx
    rfl
  let product : Expr := .binary .mul (.constant .pi) (.call "f" [.call "x" []])
  let tree : Expr := .binary .sub (.number .zero) product
  have hcall : Grammar.IsAtom [.ident "f", .lparen, .ident "x", .rparen]
      (.call "f" [.call "x" []]) :=
    .call "f" (.one (.ofProduct (.ofPower (.ofAtom (.ident "x")))))
  have hproduct : Grammar.IsProduct [.constant .pi, .op .mul, .ident "f", .lparen, .ident "x",
      .rparen] product :=
    .binary (.inl rfl) (.ofPower (.ofAtom (.constant .pi))) (.ofAtom hcall)
  have he : ofTokens true signed = .ok tree :=
    Grammar.ofTokens_eq_ok_iff.2 (.signed (.inr rfl) hproduct)
  have he' : ofTokens false (.real 0 :: signed) = .ok tree :=
    Grammar.ofTokens_eq_ok_iff.2
      (.binary (.inr rfl) (.ofProduct (.ofPower (.ofAtom (.real 0)))) hproduct)
  exact ⟨tree, tree, hts, hts', he, he', by decide +kernel, rfl,
    tree_eq_of_dump_eq hts hts' hfinite hfinite' he he' rfl⟩

/-- The bound on literals is needed: one that is too large is printed like a name. -/
example : (number (.real Double.infinity)).dump = (call "inf" []).dump := by decide +kernel

end Expr

end ComplexCalc
