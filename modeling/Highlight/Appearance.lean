/-
The appearance of the surface that text is shown on. It decides the colour of
text that no rule colours.
-/
import Highlight.Text
import Highlight.Color

namespace Highlight

inductive Appearance where
  | light
  | dark
  | default
  deriving DecidableEq, Repr, Inhabited

namespace Appearance

/-- Black on light surfaces, white on all others. -/
def foreground : Appearance → Color
  | light => .black
  | dark | default => .white

def name : Appearance → String
  | light => "light"
  | dark => "dark"
  | default => "default"

/-- The appearance with exactly this name. -/
def ofName? : String → Option Appearance
  | "light" => some light
  | "dark" => some dark
  | "default" => some default
  | _ => none

/-- A text that names no appearance: its form without outer blanks, in lower case. -/
structure Unknown where
  value : String
  deriving DecidableEq, Repr

def Unknown.message (e : Unknown) : String := "unknown appearance '" ++ e.value ++ "'"

/-- The appearance that a user's text asks for. Case and outer blanks do not count; the empty
text and `system` ask for the default. -/
def parse (text : String) : Except Unknown Appearance :=
  match Text.lowerAscii (Text.trim text) with
  | "light" => .ok light
  | "dark" => .ok dark
  | "" | "default" | "system" => .ok default
  | other => .error ⟨other⟩

end Appearance

end Highlight
