/-
Byte offsets into a line, counted in its UTF-8 form. `floor` moves an offset
down to the start of the character it falls in (or to the end of the line),
`clamp` does so with both ends of a range, and `slice` is the text between
two offsets.
-/

namespace Highlight.Text.Bytes

/-- The number of bytes that the characters take. -/
def size (cs : List Char) : Nat := cs.foldr (fun c n => c.utf8Size + n) 0

/-- How many characters lie wholly within the first `i` bytes. -/
def wholeChars : List Char → Nat → Nat
  | [], _ => 0
  | c :: cs, i => if c.utf8Size ≤ i then wholeChars cs (i - c.utf8Size) + 1 else 0

/-- The greatest character boundary at or below `i`. -/
def floor (cs : List Char) (i : Nat) : Nat := size (cs.take (wholeChars cs i))

/-- The offsets of the bytes from `start` to just before `stop`. -/
structure Range where
  start : Nat
  stop : Nat
  deriving DecidableEq, Repr

/-- Both ends moved down to character boundaries; nothing if no character is left between them. -/
def clamp (line : String) (start stop : Nat) : Option Range :=
  let lo := floor line.toList start
  let hi := floor line.toList stop
  if hi ≤ lo then none else some ⟨lo, hi⟩

/-- The characters that lie wholly before `r.stop` and not wholly before `r.start`. -/
def slice (line : String) (r : Range) : String :=
  String.ofList ((line.toList.take (wholeChars line.toList r.stop)).drop (wholeChars line.toList r.start))

theorem size_nil : size [] = 0 := rfl

theorem size_cons (c : Char) (cs : List Char) : size (c :: cs) = c.utf8Size + size cs := rfl

theorem size_append (xs ys : List Char) : size (xs ++ ys) = size xs + size ys := by
  induction xs with
  | nil => simp [size_nil]
  | cons x xs ih => rw [List.cons_append, size_cons, size_cons, ih, Nat.add_assoc]

theorem floor_cons (c : Char) (cs : List Char) (i : Nat) :
    floor (c :: cs) i = if c.utf8Size ≤ i then c.utf8Size + floor cs (i - c.utf8Size) else 0 := by
  rw [floor, wholeChars]
  split
  · rw [List.take_succ_cons, size_cons, floor]
  · rw [List.take_zero, size_nil]

theorem floor_le (cs : List Char) (i : Nat) : floor cs i ≤ i := by
  induction cs generalizing i with
  | nil => exact Nat.zero_le i
  | cons c cs ih =>
    rw [floor_cons]
    split
    · have := ih (i - c.utf8Size)
      omega
    · exact Nat.zero_le i

end Highlight.Text.Bytes
