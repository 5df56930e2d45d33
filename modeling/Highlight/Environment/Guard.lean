/-
Temporary changes of an environment. Setting or unsetting a variable under a
guard keeps its text until the guard is released, which puts the text back.
-/
import Highlight.Environment

namespace Highlight

/-- A change in force: the variable, and its text before the change if it had one. -/
structure Guard where
  name : String
  saved : Option String
  deriving DecidableEq, Repr

/-- An environment and its guards in the order of their creation; a released guard leaves a gap. -/
structure GuardedEnvironment where
  env : Environment
  guards : List (Option Guard) := []

namespace GuardedEnvironment

/-- What can be done to a guarded environment. -/
inductive Step where
  /-- Gives a variable a text, or none, under a new guard. -/
  | change (name : String) (text : Option String)
  /-- Releases the guard of this number. -/
  | release (guard : Nat)
  /-- Sets a variable without a guard. -/
  | write (name : String) (value : Environment.Value)
  deriving DecidableEq, Repr

def apply (g : GuardedEnvironment) : Step → GuardedEnvironment
  | .change name text =>
    { env := g.env.put name (text.map .text), guards := g.guards ++ [some ⟨name, g.env.text? name⟩] }
  | .release i =>
    match g.guards[i]? with
    | some (some guard) =>
      { env := g.env.put guard.name (guard.saved.map .text), guards := g.guards.set i none }
    | _ => g
  | .write name value => { g with env := g.env.put name (some value) }

/-- The environment after each step. -/
def run (g : GuardedEnvironment) : List Step → List GuardedEnvironment
  | [] => []
  | step :: steps => g.apply step :: run (g.apply step) steps

end GuardedEnvironment

end Highlight
