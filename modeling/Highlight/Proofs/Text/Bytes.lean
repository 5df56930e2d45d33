/-
Ranges of bytes and the characters in them. `between cs i j` are the
characters whose last byte lies in the range from `i` to `j`: a clamped range
is empty exactly if there are none (`clamp_eq_none_iff`), and its slice holds
exactly them (`slice_of_clamp`). Ranges that meet lose no character
(`between_append_drop`), whether or not they meet inside one.
-/
import Highlight.Text.Bytes

namespace Highlight.Text.Bytes

/-- The characters whose last byte is one of the bytes from `i` to just before `j`. -/
def between (cs : List Char) (i j : Nat) : List Char := (cs.take (wholeChars cs j)).drop (wholeChars cs i)

theorem wholeChars_le_length (cs : List Char) (i : Nat) : wholeChars cs i ≤ cs.length := by
  induction cs generalizing i with
  | nil => simp [wholeChars]
  | cons c cs ih =>
    rw [wholeChars]
    split
    · have := ih (i - c.utf8Size)
      rw [List.length_cons]
      omega
    · exact Nat.zero_le _

theorem wholeChars_zero (cs : List Char) : wholeChars cs 0 = 0 := by
  cases cs with
  | nil => rfl
  | cons c cs =>
    have := c.utf8Size_pos
    rw [wholeChars, if_neg (by omega)]

theorem wholeChars_mono (cs : List Char) {i j : Nat} (h : i ≤ j) : wholeChars cs i ≤ wholeChars cs j := by
  induction cs generalizing i j with
  | nil => simp [wholeChars]
  | cons c cs ih =>
    rw [wholeChars, wholeChars]
    split
    · rw [if_pos (by omega)]
      have := ih (i := i - c.utf8Size) (j := j - c.utf8Size) (by omega)
      omega
    · exact Nat.zero_le _

theorem wholeChars_of_size_le {cs : List Char} {i : Nat} (h : size cs ≤ i) : wholeChars cs i = cs.length := by
  induction cs generalizing i with
  | nil => rfl
  | cons c cs ih =>
    rw [size_cons] at h
    rw [wholeChars, if_pos (by omega), ih (by omega), List.length_cons]

/-- A boundary has as many whole characters below it as the offset that it was moved down from. -/
theorem wholeChars_floor (cs : List Char) (i : Nat) : wholeChars cs (floor cs i) = wholeChars cs i := by
  induction cs generalizing i with
  | nil => rfl
  | cons c cs ih =>
    rw [floor_cons]
    split
    · rename_i hc
      rw [wholeChars, if_pos (Nat.le_add_right ..), Nat.add_sub_cancel_left, ih, wholeChars, if_pos hc]
    · rename_i hc
      rw [wholeChars_zero, wholeChars, if_neg hc]

/-- A boundary stays where it is. -/
theorem floor_size_take (cs : List Char) (n : Nat) : floor cs (size (cs.take n)) = size (cs.take n) := by
  induction cs generalizing n with
  | nil => rw [List.take_nil]; rfl
  | cons c cs ih =>
    rw [floor_cons]
    cases n with
    | zero =>
      have := c.utf8Size_pos
      rw [List.take_zero, size_nil, if_neg (by omega)]
    | succ n => rw [List.take_succ_cons, size_cons, if_pos (Nat.le_add_right ..), Nat.add_sub_cancel_left, ih]

theorem size_take_mono (cs : List Char) {m n : Nat} (h : m ≤ n) : size (cs.take m) ≤ size (cs.take n) := by
  obtain ⟨rest, hrest⟩ := List.take_prefix_take_left (l := cs) h
  rw [← hrest, size_append]
  exact Nat.le_add_right _ _

theorem size_take_le (cs : List Char) (n : Nat) : size (cs.take n) ≤ size cs := by
  have := size_append (cs.take n) (cs.drop n)
  rw [List.take_append_drop] at this
  omega

theorem floor_le_floor_iff (cs : List Char) (i j : Nat) :
    floor cs j ≤ floor cs i ↔ wholeChars cs j ≤ wholeChars cs i := by
  refine ⟨fun h => ?_, size_take_mono cs⟩
  have := wholeChars_mono cs h
  rwa [wholeChars_floor, wholeChars_floor] at this

theorem floor_mono (cs : List Char) {i j : Nat} (h : i ≤ j) : floor cs i ≤ floor cs j :=
  (floor_le_floor_iff cs j i).2 (wholeChars_mono cs h)

theorem clamp_eq_none_iff {line : String} {i j : Nat} : clamp line i j = none ↔ between line.toList i j = [] := by
  have hlength := wholeChars_le_length line.toList j
  rw [clamp, between, List.drop_eq_nil_iff, List.length_take, Nat.min_eq_left hlength, ← floor_le_floor_iff]
  simp

theorem slice_of_clamp {line : String} {i j : Nat} {r : Range} (h : clamp line i j = some r) :
    slice line r = String.ofList (between line.toList i j) := by
  simp only [clamp] at h
  split at h
  · cases h
  · cases h
    rw [slice, wholeChars_floor, wholeChars_floor, between]

theorem slice_ne_empty {line : String} {i j : Nat} {r : Range} (h : clamp line i j = some r) :
    slice line r ≠ "" := by
  rw [slice_of_clamp h]
  intro he
  have hnil : between line.toList i j = [] := by
    rw [← String.toList_ofList (l := between line.toList i j), he]
    rfl
  rw [clamp_eq_none_iff.2 hnil] at h
  cases h

theorem mem_of_mem_between {cs : List Char} {i j : Nat} {c : Char} (h : c ∈ between cs i j) : c ∈ cs :=
  List.mem_of_mem_take (List.mem_of_mem_drop h)

/-- Where a range ends, the characters after it begin. -/
theorem between_append_drop (cs : List Char) {i j : Nat} (h : i ≤ j) :
    between cs i j ++ cs.drop (wholeChars cs j) = cs.drop (wholeChars cs i) := by
  have hlength : (cs.take (wholeChars cs j)).length = wholeChars cs j := by
    rw [List.length_take, Nat.min_eq_left (wholeChars_le_length cs j)]
  have hle : wholeChars cs i ≤ (cs.take (wholeChars cs j)).length := by
    rw [hlength]
    exact wholeChars_mono cs h
  rw [between, ← List.drop_append_of_le_length hle, List.take_append_drop]

end Highlight.Text.Bytes
