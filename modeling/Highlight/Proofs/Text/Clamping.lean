/-
Clamping keeps whole characters. An offset is moved down to the greatest boundary
of the line at or below it, the one that stepping down finds
(`floor_eq_stepDown`). So the bytes of a clamped range are those of the characters
whose last byte lies in the range that was clamped (`mem_clamp_iff`): ranges
without a common byte share no character then, and ranges that hold every byte
hold every character (`clamp_keeps_by_last_byte`).
-/
import Highlight.Proofs.Text.Bytes
import Mathlib.Data.Nat.Find
import Mathlib.Data.String.Basic

namespace Highlight.Text.Bytes

instance : Membership Nat Range := ⟨fun r b => r.start ≤ b ∧ b < r.stop⟩

theorem mem_range {r : Range} {b : Nat} : b ∈ r ↔ r.start ≤ b ∧ b < r.stop := Iff.rfl

/-- The bytes of the character number `n`. -/
def charBytes (cs : List Char) (n : Nat) : Range := ⟨size (cs.take n), size (cs.take (n + 1))⟩

/-- The last of these bytes. -/
def lastByte (cs : List Char) (n : Nat) : Nat := size (cs.take (n + 1)) - 1

section Characters

variable {cs : List Char} {b i m n : Nat}

theorem size_take_succ (h : n < cs.length) : size (cs.take (n + 1)) = size (cs.take n) + cs[n].utf8Size := by
  rw [← List.take_append_getElem h, size_append, size_cons, size_nil, Nat.add_zero]

/-- A character has a byte at least. -/
theorem size_take_lt (h : n < cs.length) : size (cs.take n) < size (cs.take (n + 1)) := by
  have := cs[n].utf8Size_pos
  rw [size_take_succ h]
  omega

theorem lastByte_lt_iff (h : n < cs.length) : lastByte cs n < i ↔ size (cs.take (n + 1)) ≤ i := by
  have := size_take_lt h
  rw [lastByte]
  omega

/-- The characters wholly within the first `i` bytes are those whose last byte is one of them. -/
theorem lt_wholeChars_iff (h : n < cs.length) : n < wholeChars cs i ↔ lastByte cs n < i := by
  rw [lastByte_lt_iff h]
  induction cs generalizing i n with
  | nil => simp at h
  | cons c cs ih =>
    rw [wholeChars, List.take_succ_cons, size_cons]
    cases n with
    | zero =>
      rw [List.take_zero, size_nil]
      split <;> omega
    | succ n =>
      have hn : n < cs.length := by simpa using h
      split
      · have := ih (i := i - c.utf8Size) hn
        omega
      · omega

/-- Every byte is one of a character's. -/
theorem exists_mem_charBytes (h : b < size cs) : ∃ n < cs.length, b ∈ charBytes cs n := by
  have hfloor : size (cs.take (wholeChars cs b)) ≤ b := floor_le cs b
  have hlt : wholeChars cs b < cs.length := by
    refine Nat.lt_of_le_of_ne (wholeChars_le_length cs b) fun he => ?_
    rw [he, List.take_length] at hfloor
    omega
  refine ⟨wholeChars cs b, hlt, hfloor, ?_⟩
  -- The first character that is not wholly below `b` ends at `b` or behind it.
  have hnot := (lt_wholeChars_iff (i := b) hlt).not.1 (Nat.lt_irrefl _)
  rw [lastByte_lt_iff hlt] at hnot
  show b < size (cs.take (wholeChars cs b + 1))
  omega

theorem lastByte_lt_size (h : n < cs.length) : lastByte cs n < size cs := by
  rw [lastByte_lt_iff h]
  exact size_take_le cs (n + 1)

/-- A boundary is at or below a byte if and only if no more characters lie before it than before the byte's. -/
theorem size_take_le_iff (hb : b ∈ charBytes cs n) : size (cs.take m) ≤ b ↔ m ≤ n := by
  obtain ⟨hfirst, hend⟩ := mem_range.1 hb
  refine ⟨fun h => ?_, fun h => Nat.le_trans (size_take_mono cs h) hfirst⟩
  by_contra hlt
  have hmono := size_take_mono cs (show n + 1 ≤ m by omega)
  have : b < size (cs.take (n + 1)) := hend
  omega

theorem charBytes_unique (hm : b ∈ charBytes cs m) (hn : b ∈ charBytes cs n) : m = n :=
  Nat.le_antisymm ((size_take_le_iff hn).1 hm.1) ((size_take_le_iff hm).1 hn.1)

/-- An offset comes down to a byte, or below it, if and only if it is not behind the last byte of that character. -/
theorem floor_le_iff (h : n < cs.length) (hb : b ∈ charBytes cs n) : floor cs i ≤ b ↔ i ≤ lastByte cs n := by
  rw [floor, size_take_le_iff hb, ← Nat.not_lt, lt_wholeChars_iff h, Nat.not_lt]

end Characters

theorem utf8Len_eq_size (cs : List Char) : String.utf8Len cs = size cs := by
  induction cs with
  | nil => rfl
  | cons c cs ih => rw [String.utf8Len_cons, size_cons, ih, Nat.add_comm]

section Boundaries

variable {line : String} {b i : Nat}

/-- The boundaries of a line are where some of its characters end. -/
theorem isValid_iff_exists_take : (⟨b⟩ : String.Pos.Raw).IsValid line ↔ ∃ n, b = size (line.toList.take n) := by
  simp only [String.Pos.Raw.isValid_iff_exists_take_toList, String.utf8ByteSize_ofList, utf8Len_eq_size]

theorem isValid_floor (line : String) (i : Nat) : (⟨floor line.toList i⟩ : String.Pos.Raw).IsValid line :=
  isValid_iff_exists_take.2 ⟨_, rfl⟩

theorem le_floor (hb : (⟨b⟩ : String.Pos.Raw).IsValid line) (hle : b ≤ i) : b ≤ floor line.toList i := by
  obtain ⟨n, rfl⟩ := isValid_iff_exists_take.1 hb
  rw [← floor_size_take line.toList n]
  exact floor_mono _ hle

/-- The first boundary that is met on the way down from an offset, or from the end of the line if the offset is
beyond it. -/
def stepDown (line : String) (i : Nat) : Nat :=
  Nat.findGreatest (fun b => (⟨b⟩ : String.Pos.Raw).IsValid line) (min i line.utf8ByteSize)

/-- **Stepping down finds the floor.** -/
theorem floor_eq_stepDown (line : String) (i : Nat) : floor line.toList i = stepDown line i := by
  have hvalid := isValid_floor line i
  refine (Nat.findGreatest_eq_iff.2 ⟨?_, fun _ => hvalid, fun b hlt hle hb => ?_⟩).symm
  · exact Nat.le_min.2 ⟨floor_le _ i, hvalid.le_utf8ByteSize⟩
  · have := le_floor hb (Nat.le_trans hle (Nat.min_le_left ..))
    omega

end Boundaries

theorem clamp_eq_some_iff {line : String} {i j : Nat} {r : Range} :
    clamp line i j = some r ↔
      wholeChars line.toList i < wholeChars line.toList j ∧ r = ⟨floor line.toList i, floor line.toList j⟩ := by
  rw [← Nat.not_le, ← floor_le_floor_iff, clamp]
  split
  · rename_i h
    simp [h]
  · rename_i h
    simp [h, eq_comm]

/-- A clamped range cuts its slice out of a line. -/
theorem extract_of_clamp {line : String} {i j : Nat} {r : Range} (h : clamp line i j = some r) :
    String.Pos.Raw.extract line ⟨r.start⟩ ⟨r.stop⟩ = slice line r := by
  rw [slice_of_clamp h]
  obtain ⟨hlt, rfl⟩ := clamp_eq_some_iff.1 h
  -- The line is what lies before the range, in it and behind it.
  have hfirst : (line.toList.take (wholeChars line.toList j)).take (wholeChars line.toList i) =
      line.toList.take (wholeChars line.toList i) := by
    rw [List.take_take, Nat.min_eq_left (Nat.le_of_lt hlt)]
  have hupto : line.toList.take (wholeChars line.toList i) ++ between line.toList i j =
      line.toList.take (wholeChars line.toList j) := by
    rw [between, ← hfirst, List.take_append_drop]
  have hline := String.extract_of_valid (line.toList.take (wholeChars line.toList i)) (between line.toList i j)
    (line.toList.drop (wholeChars line.toList j))
  rw [utf8Len_eq_size, utf8Len_eq_size, ← size_append, hupto, List.take_append_drop, String.ofList_toList] at hline
  exact hline

section Clamping

variable {line : String} {token r : Range}

theorem clamp_eq_none_iff_lastByte :
    clamp line token.start token.stop = none ↔ ∀ n < line.toList.length, lastByte line.toList n ∉ token := by
  have hlength := wholeChars_le_length line.toList token.stop
  rw [clamp_eq_none_iff, between, List.drop_eq_nil_iff, List.length_take, Nat.min_eq_left hlength]
  refine ⟨fun h n hn hlast => ?_, fun h => ?_⟩
  · obtain ⟨hstart, hstop⟩ := mem_range.1 hlast
    rw [← lt_wholeChars_iff hn] at hstop
    rw [← Nat.not_lt, ← lt_wholeChars_iff hn] at hstart
    omega
  · -- Otherwise the first character that is not wholly before the token ends in it.
    by_contra hlt
    have hn : wholeChars line.toList token.start < line.toList.length := by omega
    refine h _ hn (mem_range.2 ⟨?_, ?_⟩)
    · rw [← Nat.not_lt, ← lt_wholeChars_iff hn]
      exact Nat.lt_irrefl _
    · rw [← lt_wholeChars_iff hn]
      omega

/-- **The bytes of a clamped range** are those of the characters whose last byte is in the range that was clamped. -/
theorem mem_clamp_iff (h : clamp line token.start token.stop = some r) {b : Nat} :
    b ∈ r ↔ ∃ n < line.toList.length, b ∈ charBytes line.toList n ∧ lastByte line.toList n ∈ token := by
  obtain ⟨-, rfl⟩ := clamp_eq_some_iff.1 h
  have hiff {n : Nat} (hn : n < line.toList.length) (hb : b ∈ charBytes line.toList n) :
      b ∈ (⟨floor line.toList token.start, floor line.toList token.stop⟩ : Range) ↔
        lastByte line.toList n ∈ token := by
    rw [mem_range, mem_range, floor_le_iff hn hb, ← Nat.not_le, floor_le_iff hn hb, Nat.not_le]
  refine ⟨fun hmem => ?_, fun ⟨n, hn, hb, hlast⟩ => (hiff hn hb).2 hlast⟩
  have hsize : b < size line.toList := Nat.lt_of_lt_of_le (mem_range.1 hmem).2 (size_take_le _ _)
  obtain ⟨n, hn, hb⟩ := exists_mem_charBytes hsize
  exact ⟨n, hn, hb, (hiff hn hb).1 hmem⟩

/-- Ranges without a common byte have none when they are clamped. -/
theorem not_mem_clamp_of_disjoint {other s : Range} (hdisjoint : ∀ b ∈ token, b ∉ other)
    (hr : clamp line token.start token.stop = some r) (hs : clamp line other.start other.stop = some s) :
    ∀ b ∈ r, b ∉ s := by
  intro b hbr hbs
  obtain ⟨n, -, hb, hlast⟩ := (mem_clamp_iff hr).1 hbr
  obtain ⟨m, -, hb', hlast'⟩ := (mem_clamp_iff hs).1 hbs
  rw [charBytes_unique hb' hb] at hlast'
  exact hdisjoint _ hlast hlast'

/-- Ranges that hold all bytes of a line hold each of its characters, whole, when they are clamped. -/
theorem exists_clamp_of_cover {tokens : List Range} (hcover : ∀ b < size line.toList, ∃ token ∈ tokens, b ∈ token)
    {n : Nat} (hn : n < line.toList.length) :
    ∃ token ∈ tokens, ∃ r, clamp line token.start token.stop = some r ∧ ∀ b ∈ charBytes line.toList n, b ∈ r := by
  obtain ⟨token, htoken, hlast⟩ := hcover _ (lastByte_lt_size hn)
  refine ⟨token, htoken, ?_⟩
  cases hclamp : clamp line token.start token.stop with
  | none => exact absurd hlast (clamp_eq_none_iff_lastByte.1 hclamp n hn)
  | some r => exact ⟨r, rfl, fun b hb => (mem_clamp_iff hclamp).2 ⟨n, hn, hb, hlast⟩⟩

/-- **Clamping keeps exactly the characters whose last byte is in the token**, whole, and gives nothing if there is
no such character. Its ends are boundaries of the line, in order, so the line can be cut there. Tokens without a
common byte share no character, and tokens that hold every byte hold every character. -/
theorem clamp_keeps_by_last_byte (line : String) :
    (∀ token : Range,
      (clamp line token.start token.stop = none ↔ ∀ n < line.toList.length, lastByte line.toList n ∉ token) ∧
      ∀ r, clamp line token.start token.stop = some r →
        r = ⟨stepDown line token.start, stepDown line token.stop⟩ ∧
        (⟨r.start⟩ : String.Pos.Raw).IsValid line ∧ (⟨r.stop⟩ : String.Pos.Raw).IsValid line ∧ r.start < r.stop ∧
        slice line r = String.Pos.Raw.extract line ⟨r.start⟩ ⟨r.stop⟩ ∧
        ∀ b, b ∈ r ↔ ∃ n < line.toList.length, b ∈ charBytes line.toList n ∧ lastByte line.toList n ∈ token) ∧
    (∀ token other r s : Range, (∀ b ∈ token, b ∉ other) → clamp line token.start token.stop = some r →
      clamp line other.start other.stop = some s → ∀ b ∈ r, b ∉ s) ∧
    ∀ tokens : List Range, (∀ b < size line.toList, ∃ token ∈ tokens, b ∈ token) → ∀ n < line.toList.length,
      ∃ token ∈ tokens, ∃ r, clamp line token.start token.stop = some r ∧ ∀ b ∈ charBytes line.toList n, b ∈ r := by
  refine ⟨fun token => ⟨clamp_eq_none_iff_lastByte, fun r hr => ?_⟩, ?_, ?_⟩
  · obtain ⟨hlt, hends⟩ := clamp_eq_some_iff.1 hr
    have hvalid := isValid_floor line
    have hpos : r.start < r.stop := by
      rw [hends, ← Nat.not_le, floor_le_floor_iff]
      omega
    refine ⟨?_, ?_, ?_, hpos, (extract_of_clamp hr).symm, fun b => mem_clamp_iff hr⟩
    · rw [hends, floor_eq_stepDown, floor_eq_stepDown]
    · rw [hends]
      exact hvalid token.start
    · rw [hends]
      exact hvalid token.stop
  · intro token other r s hdisjoint hr hs
    exact not_mem_clamp_of_disjoint hdisjoint hr hs
  · intro tokens hcover n hn
    exact exists_clamp_of_cover hcover hn

/-- The two bytes of `é` go to the token that has the second. -/
example : clamp "aé b" 0 2 = some ⟨0, 1⟩ ∧ clamp "aé b" 2 9 = some ⟨1, 5⟩ := by decide

end Clamping

end Highlight.Text.Bytes
