/-
JSON values and their text. `Json.pretty` writes a value over several lines,
with two blanks of indentation per level.
-/

namespace Highlight

inductive Json where
  | null
  | bool (value : Bool)
  /-- The number `mantissa / 10 ^ scale`. -/
  | number (mantissa : Int) (scale : Nat)
  | text (value : String)
  | array (items : List Json)
  | object (fields : List (String × Json))
  deriving Repr, Inhabited

namespace Json

def nat (n : Nat) : Json := number n 0

/-- A character as it stands in a quoted text: quotes, backslashes and control characters are
escaped, all others stand for themselves. -/
def escaped (c : Char) : List Char :=
  match c with
  | '"' => ['\\', '"']
  | '\\' => ['\\', '\\']
  | '\x08' => ['\\', 'b']
  | '\x0c' => ['\\', 'f']
  | '\n' => ['\\', 'n']
  | '\r' => ['\\', 'r']
  | '\t' => ['\\', 't']
  | c => if c.toNat < 32 then ['\\', 'u', '0', '0', (c.toNat / 16).digitChar, (c.toNat % 16).digitChar] else [c]

def quoted (s : String) : List Char := '"' :: (s.toList.flatMap escaped ++ ['"'])

def digits (n : Nat) : List Char := Nat.toDigits 10 n

/-- A number in plain notation, with `scale` digits after its point. -/
def numeral (mantissa : Int) (scale : Nat) : List Char :=
  let sign := if mantissa < 0 then ['-'] else []
  let n := mantissa.natAbs
  if scale = 0 then sign ++ digits n
  else
    let unit := Nat.pow 10 scale
    let part := digits (n % unit)
    sign ++ digits (n / unit) ++ ['.'] ++ List.replicate (scale - part.length) '0' ++ part

def newline (depth : Nat) : List Char := '\n' :: List.replicate (2 * depth) ' '

mutual

/-- The text of a value whose first line is already indented to `depth`. -/
def chars (depth : Nat) : Json → List Char
  | null => ['n', 'u', 'l', 'l']
  | bool true => ['t', 'r', 'u', 'e']
  | bool false => ['f', 'a', 'l', 's', 'e']
  | number mantissa scale => numeral mantissa scale
  | text s => quoted s
  | array [] => ['[', ']']
  | array (v :: vs) =>
    '[' :: (newline (depth + 1) ++ chars (depth + 1) v ++ itemChars (depth + 1) vs ++ newline depth ++ [']'])
  | object [] => ['\x7b', '\x7d']
  | object ((key, v) :: fields) =>
    '\x7b' :: (newline (depth + 1) ++ quoted key ++ [':', ' '] ++ chars (depth + 1) v
      ++ fieldChars (depth + 1) fields ++ newline depth ++ ['\x7d'])

def itemChars (depth : Nat) : List Json → List Char
  | [] => []
  | v :: vs => ',' :: (newline depth ++ chars depth v ++ itemChars depth vs)

def fieldChars (depth : Nat) : List (String × Json) → List Char
  | [] => []
  | (key, v) :: fields =>
    ',' :: (newline depth ++ quoted key ++ [':', ' '] ++ chars depth v ++ fieldChars depth fields)

end

/-- The text of a value. -/
def pretty (v : Json) : String := String.ofList (v.chars 0)

end Json

end Highlight
