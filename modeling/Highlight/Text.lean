/-
Cutting texts. `cut` returns the pieces between separating characters, empty
ones included, so there is always one piece more than there are separators.
`trim` removes blanks, the characters with the Unicode property White_Space,
from both ends of a text, and `words` cuts it at them. `Lines.split` cuts at
every line feed and `Lines.join` puts line feeds between lines: a text always
has at least one line, and carriage returns and all other characters stay in
their line.
-/

namespace Highlight.Text

/-! ## Pieces -/

/-- The pieces of a text with one more character in front: a separator stands before a new piece, any
other character in the first one. -/
def cutCons (separates : Char → Bool) (c : Char) (pieces : List (List Char)) : List (List Char) :=
  if separates c then [] :: pieces else pieces.modifyHead (c :: ·)

/-- The pieces between the characters that satisfy `separates`. -/
def cut (separates : Char → Bool) (cs : List Char) : List (List Char) := cs.foldr (cutCons separates) [[]]

theorem cut_nil (separates : Char → Bool) : cut separates [] = [[]] := rfl

theorem cut_cons (separates : Char → Bool) (c : Char) (cs : List Char) :
    cut separates (c :: cs) = if separates c then [] :: cut separates cs else (cut separates cs).modifyHead (c :: ·) :=
  rfl

theorem length_cut (separates : Char → Bool) (cs : List Char) :
    (cut separates cs).length = cs.countP separates + 1 := by
  induction cs with
  | nil => rfl
  | cons c cs ih =>
    rw [cut_cons, List.countP_cons]
    split <;> simp [ih]

/-! ## Blanks -/

/-- The characters with the property White_Space, in order of code point. -/
def blanks : List Char :=
  ['\x09', '\x0a', '\x0b', '\x0c', '\x0d', ' ', '\u0085', '\u00a0', '\u1680', '\u2000', '\u2001', '\u2002',
    '\u2003', '\u2004', '\u2005', '\u2006', '\u2007', '\u2008', '\u2009', '\u200a', '\u2028', '\u2029', '\u202f',
    '\u205f', '\u3000']

def isBlank (c : Char) : Bool := blanks.contains c

def trimChars (cs : List Char) : List Char :=
  ((cs.dropWhile isBlank).reverse.dropWhile isBlank).reverse

/-- The text without the blanks at its start and end. -/
def trim (s : String) : String := String.ofList (trimChars s.toList)

def wordChars (cs : List Char) : List (List Char) := (cut isBlank cs).filter (! ·.isEmpty)

/-- The parts of a text between its blanks; none of them is empty. -/
def words (s : String) : List String := (wordChars s.toList).map String.ofList

/-- The text with the letters `A` to `Z` in lower case; no other character changes. -/
def lowerAscii (s : String) : String := String.ofList (s.toList.map Char.toLower)

/-! ## Lines -/

namespace Lines

def splitChars (cs : List Char) : List (List Char) := cut (· == '\n') cs

/-- The lines of a text. A line feed ends a line and belongs to none. -/
def split (text : String) : List String := (splitChars text.toList).map String.ofList

/-- The lines with one line feed between each two. -/
def join (lines : List String) : String := String.intercalate "\n" lines

end Lines

end Highlight.Text
