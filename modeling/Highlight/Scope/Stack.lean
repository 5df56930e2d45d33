/-
The scopes that hold at a place of a text, outermost first, and the operations
that a line parser performs on them.
-/
import Highlight.Scope

namespace Highlight

/-- Scopes, outermost first, and the groups of scopes set aside, the latest first. -/
structure ScopeStack where
  scopes : List Scope := []
  cleared : List (List Scope) := []
  deriving DecidableEq, Repr, Inhabited

/-- How many of the innermost scopes to set aside. -/
inductive ClearAmount where
  | top (count : Nat)
  | all
  deriving DecidableEq, Repr

inductive ScopeOp where
  | push (scope : Scope)
  /-- Removes the innermost scopes; all of them if there are fewer. -/
  | pop (count : Nat)
  /-- Sets innermost scopes aside. -/
  | clear (amount : ClearAmount)
  /-- Puts back the scopes that were set aside last. -/
  | restore
  | noop
  deriving DecidableEq, Repr

namespace ScopeStack

/-- Nothing was set aside that could be put back. -/
structure NothingCleared where
  deriving DecidableEq, Repr

def NothingCleared.message (_ : NothingCleared) : String := "NoClearedScopesToRestore"

def apply (stack : ScopeStack) : ScopeOp → Except NothingCleared ScopeStack
  | .push scope => .ok { stack with scopes := stack.scopes ++ [scope] }
  | .pop count => .ok { stack with scopes := stack.scopes.take (stack.scopes.length - count) }
  | .clear amount =>
    let keep := match amount with
      | .top count => stack.scopes.length - count
      | .all => 0
    .ok ⟨stack.scopes.take keep, stack.scopes.drop keep :: stack.cleared⟩
  | .restore =>
    match stack.cleared with
    | scopes :: cleared => .ok ⟨stack.scopes ++ scopes, cleared⟩
    | [] => .error {}
  | .noop => .ok stack

/-- The printed scopes, outermost first. -/
def names (stack : ScopeStack) : List String := stack.scopes.map Scope.name

end ScopeStack

end Highlight
