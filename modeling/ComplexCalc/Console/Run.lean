import ComplexCalc.Console.Event
import ComplexCalc.Console.Options
import ComplexCalc.Session.Basic
import ComplexCalc.Session.Statements
import ComplexCalc.Text.Blank

/-! Runs of the console. A batch runs the statements of one text; an interactive session runs those
of one line after another. -/

namespace ComplexCalc.Console

def runStatement (o : Options) (batch : Bool) (s : Session) (statement : String) :
    List Event × Session :=
  let trees :=
    if o.dumpTree && !isBinding statement then
      match s.parse statement with
      | .ok e => [.tree e]
      | .error _ => []
    else []
  match s.process statement with
  | (.ok (.value z), s) => (trees ++ if batch && isBinding statement then [] else [.value z], s)
  | (.ok .defined, s) => (trees, s)
  | (.error e, s) => (trees ++ [.failure e], s)

def runStatements (o : Options) (batch : Bool) (s : Session) : List String → List Event × Session
  | [] => ([], s)
  | statement :: rest =>
    let (events, s) := runStatement o batch s statement
    let (later, s) := runStatements o batch s rest
    (events ++ later, s)

def isBlankText (text : String) : Bool := text.toList.all Text.isBlank

def runText (o : Options) (batch : Bool) (s : Session) (text : String) : List Event × Session :=
  runStatements o batch s ((statements text).filter (!isBlankText ·))

/-- The events of one line of an interactive session, and the session unless it ends. The input has
no further line, or none that is text, at `none`. -/
def answerLine (o : Options) (s : Session) : Option String → List Event × Option Session
  | none => ([.farewell], none)
  | some line =>
    if Text.trim line.toList = [] then ([], some s)
    else if Text.trim line.toList = "exit".toList then ([], none)
    else
      let (events, s) := runText o false s line
      (events, some s)

def interact (o : Options) (s : Session) : List (Option String) → List Event
  | [] => .prompt :: (answerLine o s none).1
  | line :: lines =>
    match answerLine o s line with
    | (events, none) => .prompt :: events
    | (events, some s) => .prompt :: (events ++ interact o s lines)

def decodeLine (bytes : List UInt8) : Option String :=
  (String.fromUTF8? (ByteArray.mk bytes.toArray)).map fun text =>
    let cs := text.toList
    if cs.getLast? = some '\n' then
      let cs := cs.dropLast
      String.ofList (if cs.getLast? = some '\r' then cs.dropLast else cs)
    else text

/-- The lines of an input, each with its end; the last one may lack it. -/
def rawLines : List UInt8 → List (List UInt8)
  | [] => []
  | b :: bs =>
    if b = 10 then [b] :: rawLines bs
    else
      match rawLines bs with
      | [] => [[b]]
      | line :: lines => (b :: line) :: lines

structure Transcript where
  events : List Event
  code : Nat

namespace Transcript

def output (t : Transcript) : String := String.join (t.events.map Event.output)

def errors (t : Transcript) : String := String.join (t.events.map Event.errors)

end Transcript

def runBatch (o : Options) (text : String) : Transcript :=
  let (events, _) := runText o true (.start o.verbose) text
  ⟨events, if events.any Event.isFailure then 1 else 0⟩

def runInteractive (o : Options) (stdin : List UInt8) : Transcript :=
  ⟨interact o (.start o.verbose) ((rawLines stdin).map decodeLine), 0⟩

def run (o : Options) (stdin : List UInt8) : Transcript :=
  match o.input with
  | some text => runBatch o text
  | none => runInteractive o stdin

end ComplexCalc.Console
