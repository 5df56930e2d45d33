/-
Selectors: which scope paths a rule applies to. A selector is a list of
alternatives, each a path that must be found in order, from the outside in,
and paths that must not be found. `Selector.power` gives how well it fits.
Other types of selectors may take its place, as instances of `Selects`.
-/
import Highlight.Scope.Power
import Highlight.Scope

namespace Highlight

namespace Selector

structure Alternative where
  path : List Scope
  exclusions : List (List Scope) := []
  deriving DecidableEq, Repr

/-- The pieces of a text between occurrences of a blank followed by a minus. -/
def cutMinus : List Char → List (List Char)
  | [] => [[]]
  | ' ' :: '-' :: cs => [] :: cutMinus cs
  | c :: cs => (cutMinus cs).modifyHead (c :: ·)

/-- An alternative: a path, then what is excluded, each after a blank and a minus. -/
def Alternative.parse (cs : List Char) : Except Scope.TooLong Alternative := do
  match ← (cutMinus cs).mapM fun piece => Scope.parseList (String.ofList piece) with
  | [] => return ⟨[], []⟩
  | path :: exclusions => return ⟨path, exclusions⟩

/-- Finds the scopes of a path in a stack, from depth `depth` on, and adds up what they contribute. -/
def climb : List Scope → Nat → Power → List Scope → Option Power
  | [], _, score, _ => some score
  | _ :: _, _, _, [] => none
  | p :: path, depth, score, s :: stack =>
    if p.covers s then climb path (depth + 1) (score.add (.contribution p.atoms.length depth)) stack
    else climb (p :: path) (depth + 1) score stack

/-- The power of a path in a stack of scopes, outermost first, if all of it is found. -/
def pathPower (path stack : List Scope) : Option Power := climb path 0 (.finite 0) stack

/-- An excluded path that is empty or found rules an alternative out; an empty path fits with power 1. -/
def Alternative.power (a : Alternative) (stack : List Scope) : Option Power :=
  if a.exclusions.any fun path => path.isEmpty || (pathPower path stack).isSome then none
  else if a.path.isEmpty then some (.finite 1)
  else pathPower a.path stack

end Selector

structure Selector where
  alternatives : List Selector.Alternative
  deriving DecidableEq, Repr

namespace Selector

/-- Reads the alternatives between commas and bars. -/
def parse (text : String) : Except Scope.TooLong Selector :=
  return ⟨← (Text.cut (fun c => c == ',' || c == '|') text.toList).mapM Alternative.parse⟩

/-- The greatest power of an alternative that fits. -/
def power (s : Selector) (stack : List Scope) : Option Power :=
  (s.alternatives.filterMap (·.power stack)).foldl
    (fun best p => match best with
      | none => some p
      | some q => some (max q p))
    none

end Selector

/-- Selectors of type `ς`: each fits some stacks of scopes, with a power of type `π`. -/
class Selects (ς : Type) (π : outParam Type) where
  /-- The power with which a selector fits a stack, outermost scope first, if it does. -/
  power : ς → List Scope → Option π

instance : Selects Selector Power := ⟨Selector.power⟩

end Highlight
