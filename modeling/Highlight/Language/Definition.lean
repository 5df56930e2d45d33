/-
Language definitions: contexts with rules. A rule gives the scopes of what its
pattern matches and says which context comes next. The scopes of a context
hold for its text and for what opens and closes it (`metaScopes`) or for its
text alone (`contentScopes`).
-/
import Highlight.Pattern.Search
import Highlight.Scope.Stack

namespace Highlight.Language

/-- Where a rule leads: it may enter contexts, replace the current one by others, or leave it. -/
inductive Move where
  | stay
  | push (targets : List String)
  | set (targets : List String)
  | pop
  deriving DecidableEq, Repr

def Move.isPush : Move → Bool
  | .push _ => true
  | _ => false

structure Rule where
  pattern : Pattern
  scopes : List Scope := []
  move : Move := .stay
  deriving DecidableEq, Repr

structure Context where
  metaScopes : List Scope := []
  contentScopes : List Scope := []
  rules : List Rule := []
  deriving DecidableEq, Repr, Inhabited

/-- A language: its names, and its contexts by name. It starts in `main`. -/
structure Definition where
  name : String
  scope : Scope
  extensions : List String
  contexts : List (String × Context)
  deriving DecidableEq, Repr

namespace Definition

/-- The context that a name stands for; one without rules if the name is unknown. -/
def context (d : Definition) (name : String) : Context := (d.contexts.lookup name).getD {}

/-- The context below all others: in the scope of the language, it enters `main` at once. -/
def root (d : Definition) : Context where
  contentScopes := [d.scope]
  rules := [{ pattern := .empty, move := .push ["main"] }]

end Definition

end Highlight.Language
