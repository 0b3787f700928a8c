/-! The arguments of the command line: two switches, each at most once, and at most one input. -/

namespace ComplexCalc.Console

inductive Switch
  | dumpTree
  | verbose
  deriving DecidableEq

namespace Switch

def ofLetter? : Char → Option Switch
  | 'd' => some dumpTree
  | 'v' => some verbose
  | _ => none

def ofName? : String → Option Switch
  | "dump-tree" => some dumpTree
  | "verbose" => some verbose
  | _ => none

end Switch

structure Options where
  dumpTree : Bool
  verbose : Bool
  input : Option String
  deriving DecidableEq

namespace Options

def initial : Options := ⟨false, false, none⟩

def switch? (o : Options) : Switch → Option Options
  | .dumpTree => if o.dumpTree then none else some { o with dumpTree := true }
  | .verbose => if o.verbose then none else some { o with verbose := true }

def setInput? (o : Options) (text : String) : Option Options :=
  if o.input.isSome then none else some { o with input := some text }

/-- Takes one argument before `--`: a long switch, letters of joined short switches, or the input. A
lone dash is an input. -/
def argument? (o : Options) (text : String) : Option Options :=
  match text.toList with
  | '-' :: '-' :: name => (Switch.ofName? (String.ofList name)).bind o.switch?
  | '-' :: letter :: letters =>
    (letter :: letters).foldlM (fun o c => (Switch.ofLetter? c).bind o.switch?) o
  | _ => o.setInput? text

def read? (o : Options) : List String → Option Options
  | [] => some o
  | text :: rest =>
    if text = "--" then rest.foldlM setInput? o
    else (o.argument? text).bind fun o => o.read? rest

def ofArguments? (arguments : List String) : Option Options := initial.read? arguments

end Options

end ComplexCalc.Console
