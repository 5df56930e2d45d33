/-
Colours: three channels of eight bits. `Color.ofHex` reads six hexadecimal
digits of either case, after an optional `#`; `Color.toHex` writes `#` and six
lower-case digits. `ColorError` says why a colour of a theme cannot be had.
-/

namespace Highlight

/-- A place in a theme's table of colours. -/
structure ColorRef where
  index : UInt32
  deriving DecidableEq, Repr

/-- Why a colour cannot be had. -/
inductive ColorError where
  /-- The text has not six characters after its `#`, but `count`. -/
  | badLength (value : String) (count : Nat)
  /-- Some character of the text is no hexadecimal digit. -/
  | badDigit (value : String)
  /-- The theme has no text for this colour. -/
  | missing (ref : ColorRef)
  deriving DecidableEq, Repr

def ColorError.message : ColorError → String
  | .badLength value count => "Colour '" ++ value ++ "' must have exactly 6 hex digits, found " ++ toString count
  | .badDigit value => "Colour '" ++ value ++ "' contains a non-hex digit"
  | .missing ref => "Theme has no colour string for colour id " ++ toString ref.index.toNat

/-- A colour by its red, green and blue channels. -/
structure Color where
  red : UInt8
  green : UInt8
  blue : UInt8
  deriving DecidableEq, Repr

namespace Color

def black : Color := ⟨0, 0, 0⟩

def white : Color := ⟨255, 255, 255⟩

/-- The value of a hexadecimal digit of either case. -/
def digit? (c : Char) : Option Nat :=
  if '0' ≤ c ∧ c ≤ '9' then some (c.toNat - '0'.toNat)
  else if 'a' ≤ c ∧ c ≤ 'f' then some (c.toNat - 'a'.toNat + 10)
  else if 'A' ≤ c ∧ c ≤ 'F' then some (c.toNat - 'A'.toNat + 10)
  else none

/-- The channel that two digits stand for, the high one first. -/
def channel? (high low : Char) : Option UInt8 := do
  let h ← digit? high
  let l ← digit? low
  return UInt8.ofNat (16 * h + l)

/-- The characters after one leading `#`, or all of them if there is none. -/
def afterHash : List Char → List Char
  | '#' :: cs => cs
  | cs => cs

/-- The colour of exactly six digits. -/
def ofDigits? : List Char → Option Color
  | [r₁, r₀, g₁, g₀, b₁, b₀] => do
    let red ← channel? r₁ r₀
    let green ← channel? g₁ g₀
    let blue ← channel? b₁ b₀
    return ⟨red, green, blue⟩
  | _ => none

/-- The colour that a text stands for. Its length is judged before its digits. -/
def ofHex (value : String) : Except ColorError Color :=
  let digits := afterHash value.toList
  if digits.length ≠ 6 then .error (.badLength value digits.length)
  else match ofDigits? digits with
    | some color => .ok color
    | none => .error (.badDigit value)

/-- The two lower-case hexadecimal digits of a channel. -/
def channelChars (c : UInt8) : List Char := [(c.toNat / 16).digitChar, (c.toNat % 16).digitChar]

/-- The colour as `#` and six lower-case digits. -/
def toHex (c : Color) : String :=
  String.ofList ('#' :: (channelChars c.red ++ channelChars c.green ++ channelChars c.blue))

end Color

end Highlight
