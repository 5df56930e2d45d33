/-
Scopes: dotted names such as `keyword.control.if`. `Scope.parse` cuts a text
into atoms and `Scope.name` joins them again. One scope covers another if its
atoms begin the other's.
-/
import Highlight.Text

namespace Highlight

structure Scope where
  atoms : List String
  deriving DecidableEq, Repr

namespace Scope

/-- The greatest number of atoms of a scope. -/
def maxAtoms : Nat := 8

/-- A text of more than `maxAtoms` atoms. -/
structure TooLong where
  deriving DecidableEq, Repr

def TooLong.message (_ : TooLong) : String := "Too many atoms. Max 2^16-2 atoms allowed."

def empty : Scope := ⟨[]⟩

/-- The text without the dots at its end. -/
def dropDots (cs : List Char) : List Char := (cs.reverse.dropWhile (· == '.')).reverse

/-- The atoms of a text that is not blank: dots at its end do not count, atoms may be empty. -/
def atomsOf (cs : List Char) : List String := (Text.cut (· == '.') (dropDots cs)).map String.ofList

/-- The scope that a text names. A blank text names the empty scope. -/
def parse (text : String) : Except TooLong Scope :=
  match Text.trimChars text.toList with
  | [] => .ok empty
  | cs =>
    let atoms := atomsOf cs
    if atoms.length ≤ maxAtoms then .ok ⟨atoms⟩ else .error {}

/-- The atoms with dots between them. -/
def name (s : Scope) : String := String.intercalate "." s.atoms

/-- The atoms of the first scope begin those of the second. -/
def covers (s t : Scope) : Bool := s.atoms.isPrefixOf t.atoms

/-- The scopes of a text of names with blanks between them. -/
def parseList (text : String) : Except TooLong (List Scope) := (Text.words text).mapM parse

end Scope

end Highlight
