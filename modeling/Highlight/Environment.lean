/-
Environments: what each variable is set to, if it is set. A value need not be
a text; whoever wants a text reads such a variable as unset.
-/

namespace Highlight

namespace Environment

/-- What a variable is set to: a text, or bytes that are no UTF-8. -/
inductive Value where
  | text (value : String)
  | bytes (value : List UInt8)
  deriving DecidableEq, Repr

def Value.text? : Value → Option String
  | text value => some value
  | bytes _ => none

end Environment

structure Environment where
  get : String → Option Environment.Value

namespace Environment

def empty : Environment := ⟨fun _ => none⟩

/-- Sets or unsets one variable. -/
def put (env : Environment) (name : String) (value : Option Value) : Environment :=
  ⟨fun other => if other = name then value else env.get other⟩

/-- The text of a variable, if it is set to one. -/
def text? (env : Environment) (name : String) : Option String := (env.get name).bind Value.text?

end Environment

end Highlight
