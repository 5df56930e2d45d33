/-
Rules, styles and emphasis. A rule of a theme may set a foreground, a
background and font bits. `Style.fold` makes one style of the rules that match
a token: the first foreground, the first background, and the union of all font
bits. `Emphasis.ofBits` reads a union as bold, italic or underline only if it
is exactly that one bit.
-/
import Highlight.Color

namespace Highlight

/-- Font styles as a set of bits; bits without a name are kept. -/
abbrev FontBits := UInt8

namespace FontBits

def italic : FontBits := 1

def bold : FontBits := 2

def underline : FontBits := 4

end FontBits

/-- What one matching entry of a theme asks for. -/
structure Rule where
  foreground : Option ColorRef := none
  background : Option ColorRef := none
  font : Option FontBits := none
  deriving DecidableEq, Repr, Inhabited

/-- What all matching rules together ask for. -/
structure Style where
  foreground : Option ColorRef := none
  background : Option ColorRef := none
  font : FontBits := 0
  deriving DecidableEq, Repr, Inhabited

/-- For each colour the first rule that sets it wins; font bits add up. -/
def Style.fold (rules : List Rule) : Style where
  foreground := rules.findSome? Rule.foreground
  background := rules.findSome? Rule.background
  font := (rules.filterMap Rule.font).foldl (· ||| ·) 0

structure Emphasis where
  bold : Bool := false
  italic : Bool := false
  underline : Bool := false
  deriving DecidableEq, Repr, Inhabited

/-- The emphasis of font bits: one of the three if they are exactly its bit, else none. -/
def Emphasis.ofBits (bits : FontBits) : Emphasis where
  bold := bits == FontBits.bold
  italic := bits == FontBits.italic
  underline := bits == FontBits.underline

end Highlight
