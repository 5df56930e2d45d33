/-
Reading JSON. `Json.read` reads the texts of RFC 8259 and no others: spaces may stand
around values and signs, numbers have no needless zeros, control characters must be
escaped, and a character outside the first plane may be escaped by a surrogate pair,
of which neither half may stand alone.
-/
import Highlight.Color
import Highlight.Json

namespace Highlight.Json

def isSpace (c : Char) : Bool := c == ' ' || c == '\t' || c == '\n' || c == '\r'

def skip (cs : List Char) : List Char := cs.dropWhile isSpace

/-- Four hexadecimal digits, as the unit of UTF-16 that they stand for. -/
def readUnit : List Char → Option (Nat × List Char)
  | a :: b :: c :: d :: cs => do
    let a ← Color.digit? a
    let b ← Color.digit? b
    let c ← Color.digit? c
    let d ← Color.digit? d
    return (4096 * a + 256 * b + 16 * c + d, cs)
  | _ => none

/-- The character that a unit stands for, which may need the unit after it. -/
def readUnits (cs : List Char) : Option (Char × List Char) := do
  let (unit, cs) ← readUnit cs
  if 0xD800 ≤ unit ∧ unit < 0xDC00 then
    match cs with
    | '\\' :: 'u' :: cs =>
      let (low, cs) ← readUnit cs
      if 0xDC00 ≤ low ∧ low < 0xE000 then
        return (Char.ofNat (0x10000 + 0x400 * (unit - 0xD800) + (low - 0xDC00)), cs)
      else none
    | _ => none
  else if 0xDC00 ≤ unit ∧ unit < 0xE000 then none
  else return (Char.ofNat unit, cs)

/-- The character that one letter stands for after a backslash. -/
def unescape? : Char → Option Char
  | '"' => some '"'
  | '\\' => some '\\'
  | '/' => some '/'
  | 'b' => some '\x08'
  | 'f' => some '\x0c'
  | 'n' => some '\n'
  | 'r' => some '\r'
  | 't' => some '\t'
  | _ => none

/-- One character of a quoted text, which may be escaped. -/
def readChar : List Char → Option (Char × List Char)
  | '\\' :: 'u' :: cs => readUnits cs
  | '\\' :: c :: cs => (unescape? c).map fun c => (c, cs)
  | c :: cs => if c.toNat < 32 ∨ c = '"' ∨ c = '\\' then none else some (c, cs)
  | [] => none

/-- The characters up to a quotation mark, at most as many as `fuel`. -/
def readChars : Nat → List Char → Option (List Char × List Char)
  | _, '"' :: cs => some ([], cs)
  | fuel + 1, cs => do
    let (c, cs) ← readChar cs
    let (more, cs) ← readChars fuel cs
    return (c :: more, cs)
  | 0, _ => none

/-- A text after its first quotation mark. -/
def readText (cs : List Char) : Option (String × List Char) :=
  (readChars cs.length cs).map fun (read, cs) => (String.ofList read, cs)

def readDigits (cs : List Char) : Option (List Char × List Char) :=
  match cs.takeWhile Char.isDigit with
  | [] => none
  | ds => some (ds, cs.dropWhile Char.isDigit)

/-- Digits without a zero before others. -/
def readWhole (cs : List Char) : Option (List Char × List Char) := do
  let (ds, cs) ← readDigits cs
  match ds with
  | '0' :: _ :: _ => none
  | ds => return (ds, cs)

/-- The digits after a point, if there is one. -/
def readFraction : List Char → Option (List Char × List Char)
  | '.' :: cs => readDigits cs
  | cs => some ([], cs)

/-- The power of ten that a number is multiplied by, if there is one. -/
def readExponent : List Char → Option (Int × List Char)
  | 'e' :: cs | 'E' :: cs =>
    match cs with
    | '-' :: cs => (readDigits cs).map fun (ds, cs) => (-(Nat.ofDigitChars 10 ds 0 : Int), cs)
    | '+' :: cs | cs => (readDigits cs).map fun (ds, cs) => ((Nat.ofDigitChars 10 ds 0 : Int), cs)
  | cs => some (0, cs)

/-- The number `mantissa * 10 ^ exponent`. -/
def scaled (mantissa exponent : Int) : Json :=
  if exponent ≤ 0 then number mantissa exponent.natAbs else number (mantissa * Nat.pow 10 exponent.natAbs) 0

/-- The sign of a number. -/
def readSign : List Char → Int × List Char
  | '-' :: cs => (-1, cs)
  | cs => (1, cs)

def readNumber (cs : List Char) : Option (Json × List Char) := do
  let (sign, cs) := readSign cs
  let (whole, cs) ← readWhole cs
  let (fraction, cs) ← readFraction cs
  let (exponent, cs) ← readExponent cs
  return (scaled (sign * Nat.ofDigitChars 10 (whole ++ fraction) 0) (exponent - fraction.length), cs)

/-- Members with commas between them, up to a closing sign, at most as many as `fuel`. -/
def readMore (close : Char) (member : List Char → Option (α × List Char)) :
    Nat → List Char → Option (List α × List Char)
  | 0, _ => none
  | fuel + 1, cs => do
    let (a, cs) ← member (skip cs)
    match skip cs with
    | ',' :: cs =>
      let (more, cs) ← readMore close member fuel cs
      return (a :: more, cs)
    | c :: cs => if c = close then some ([a], cs) else none
    | [] => none

/-- The members of a list after its opening sign, up to its closing sign. -/
def readMembers (close : Char) (member : List Char → Option (α × List Char)) (cs : List Char) :
    Option (List α × List Char) :=
  match skip cs with
  | [] => none
  | c :: rest => if c = close then some ([], rest) else readMore close member cs.length cs

/-- A field of an object: its name, a colon, its value. -/
def readField (value : List Char → Option (Json × List Char)) : List Char → Option ((String × Json) × List Char)
  | '"' :: cs => do
    let (key, cs) ← readText cs
    match skip cs with
    | ':' :: cs =>
      let (v, cs) ← value (skip cs)
      return ((key, v), cs)
    | _ => none
  | _ => none

/-- The value at the front of a text, of at most as many levels as `fuel`. -/
def readValue : Nat → List Char → Option (Json × List Char)
  | 0, _ => none
  | fuel + 1, cs =>
    match cs with
    | 'n' :: 'u' :: 'l' :: 'l' :: cs => some (null, cs)
    | 't' :: 'r' :: 'u' :: 'e' :: cs => some (bool true, cs)
    | 'f' :: 'a' :: 'l' :: 's' :: 'e' :: cs => some (bool false, cs)
    | '"' :: cs => (readText cs).map fun (s, cs) => (text s, cs)
    | '[' :: cs => (readMembers ']' (readValue fuel) cs).map fun (items, cs) => (array items, cs)
    | '\x7b' :: cs => (readMembers '\x7d' (readField (readValue fuel)) cs).map fun (fields, cs) => (object fields, cs)
    | cs => readNumber cs

/-- The value that a text stands for, if it is the text of one. -/
def read (s : String) : Option Json := do
  let (v, cs) ← readValue s.length (skip s.toList)
  if skip cs = [] then some v else none

example : (read "[1,]").isNone ∧ (read "01").isNone ∧ (read "\"\n\"").isNone ∧ (read "\"\\ud83d\"").isNone := by
  decide +kernel

example :
    (read " [ \"\\ud83d\\ude00\" , -2.50e1 ]\n").map pretty = some (array [text "😀", number (-250) 1]).pretty := by
  decide +kernel

end Highlight.Json
