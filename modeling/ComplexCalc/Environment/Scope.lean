import ComplexCalc.Environment.Functions

/-! What a name means during evaluation. A call puts a frame over the scope of its caller, so a body
sees its own parameters first, then everything that its caller sees. -/

namespace ComplexCalc

inductive Scope
  | globals (vars : Variables)
  | frame (params : List String) (args : List Number) (caller : Scope)

namespace Scope

/-- The innermost binding of a name. In a frame the first of two equal parameters counts, and a
parameter without an argument binds nothing. -/
def lookup? (name : String) : Scope → Option Number
  | globals vars => vars[name]?
  | frame params args caller => ((params.zip args).lookup name).or (caller.lookup? name)

end Scope

structure Environment where
  scope : Scope
  functions : Functions

namespace Environment

def global (vars : Variables) (functions : Functions) : Environment :=
  ⟨.globals vars, functions⟩

def enter (env : Environment) (f : UserFunction) (args : List Number) : Environment :=
  { env with scope := .frame f.params args env.scope }

end Environment

end ComplexCalc
