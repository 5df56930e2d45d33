/-
Which texts stand for a colour. Six hexadecimal digits do, after an optional
`#`, and other texts give one of two errors (`ofHex_cases`). The digits that a
colour was read from are those it is written with, but for their case
(`toHex_of_digits`).

`scanHex` reads by bytes: it tests each byte, cuts the text at byte offsets and
reads whole numbers, which may have a sign. It finds the same
(`scanHex_eq`), as a text that passes the test has one byte for each character.
-/
import Highlight.Proofs.Color
import Highlight.Proofs.Text.Clamping

namespace Highlight.Color

open Text.Bytes

/-- The value of a hexadecimal digit: its place among the lower-case ones. -/
def digitValue (c : Char) : Nat := "0123456789abcdef".toList.idxOf c.toLower

/-- The value of a pair of digits, the high one first. -/
def pairValue (high low : Char) : Nat := 16 * digitValue high + digitValue low

theorem isHexDigit_iff {c : Char} :
    c.isHexDigit = true ↔
      (48 ≤ c.toNat ∧ c.toNat ≤ 57) ∨ (97 ≤ c.toNat ∧ c.toNat ≤ 102) ∨ (65 ≤ c.toNat ∧ c.toNat ≤ 70) := by
  simp only [Char.isHexDigit, Char.isDigit, Bool.or_eq_true, Bool.and_eq_true, decide_eq_true_eq, ge_iff_le,
    UInt32.le_iff_toNat_le]
  exact or_assoc

/-- What is tested on the 22 hexadecimal digits holds of every character that is one. -/
theorem of_all_digits {p : Char → Bool} (h : "0123456789abcdefABCDEF".toList.all p = true) {c : Char}
    (hc : c.isHexDigit = true) : p c = true := by
  have hall : ∀ n ∈ List.range 103, (Char.ofNat n).isHexDigit = true →
      Char.ofNat n ∈ "0123456789abcdefABCDEF".toList := by decide +kernel
  have hlt : c.toNat < 103 := by
    have := isHexDigit_iff.1 hc
    omega
  have hmem := hall c.toNat (List.mem_range.2 hlt)
  rw [Char.ofNat_toNat] at hmem
  exact List.all_eq_true.1 h c (hmem hc)

theorem digit?_of_isHexDigit {c : Char} (h : c.isHexDigit = true) : digit? c = some (digitValue c) :=
  of_decide_eq_true (of_all_digits (p := fun c => digit? c = some (digitValue c)) (by decide +kernel) h)

theorem digitValue_lt {c : Char} (h : c.isHexDigit = true) : digitValue c < 16 :=
  of_decide_eq_true (of_all_digits (p := fun c => digitValue c < 16) (by decide +kernel) h)

theorem digitChar_digitValue {c : Char} (h : c.isHexDigit = true) : (digitValue c).digitChar = c.toLower :=
  of_decide_eq_true (of_all_digits (p := fun c => (digitValue c).digitChar = c.toLower) (by decide +kernel) h)

theorem isHexDigit_of_digit? {c : Char} {d : Nat} (h : digit? c = some d) : c.isHexDigit = true := by
  by_contra hnot
  rw [isHexDigit_iff] at hnot
  rw [digit?, if_neg, if_neg, if_neg] at h
  · cases h
  · exact fun hupper => hnot (.inr (.inr hupper))
  · exact fun hlower => hnot (.inr (.inl hlower))
  · exact fun hdecimal => hnot (.inl hdecimal)

theorem exists_not_isHexDigit_iff {cs : List Char} :
    (∃ c ∈ cs, c.isHexDigit = false) ↔ ¬ ∀ c ∈ cs, c.isHexDigit = true := by
  simp

theorem channel?_of_isHexDigit {high low : Char} (hhigh : high.isHexDigit = true) (hlow : low.isHexDigit = true) :
    channel? high low = some (UInt8.ofNat (pairValue high low)) := by
  rw [channel?, digit?_of_isHexDigit hhigh, digit?_of_isHexDigit hlow]
  rfl

theorem isHexDigit_of_channel? {high low : Char} {channel : UInt8} (h : channel? high low = some channel) :
    high.isHexDigit = true ∧ low.isHexDigit = true := by
  rw [channel?] at h
  obtain ⟨h₁, hhigh, h⟩ := Option.bind_eq_some_iff.1 h
  obtain ⟨h₀, hlow, -⟩ := Option.bind_eq_some_iff.1 h
  exact ⟨isHexDigit_of_digit? hhigh, isHexDigit_of_digit? hlow⟩

theorem toNat_pairValue {high low : Char} (hhigh : high.isHexDigit = true) (hlow : low.isHexDigit = true) :
    (UInt8.ofNat (pairValue high low)).toNat = pairValue high low := by
  have := digitValue_lt hhigh
  have := digitValue_lt hlow
  exact UInt8.toNat_ofNat_of_lt' (by rw [UInt8.size, pairValue]; omega)

/-- The digits of a pair in lower case are those that its value is written with. -/
theorem channelChars_pairValue {high low : Char} (hhigh : high.isHexDigit = true) (hlow : low.isHexDigit = true) :
    channelChars (UInt8.ofNat (pairValue high low)) = [high.toLower, low.toLower] := by
  have hlt := digitValue_lt hlow
  have hquotient : pairValue high low / 16 = digitValue high := by rw [pairValue]; omega
  have hrest : pairValue high low % 16 = digitValue low := by rw [pairValue]; omega
  rw [channelChars, toNat_pairValue hhigh hlow, hquotient, hrest, digitChar_digitValue hhigh, digitChar_digitValue hlow]

theorem exists_six {as : List α} (h : as.length = 6) : ∃ a b c d e f, as = [a, b, c, d, e, f] := by
  match as, h with
  | [a, b, c, d, e, f], _ => exact ⟨a, b, c, d, e, f, rfl⟩

/-- A text of another length than six after its `#` stands for no colour, whatever its characters. -/
theorem ofHex_of_length_ne {value : String} (h : (afterHash value.toList).length ≠ 6) :
    ofHex value = .error (.badLength value (afterHash value.toList).length) := by
  rw [ofHex, if_pos h]

theorem ofHex_of_digits {value : String} {r₁ r₀ g₁ g₀ b₁ b₀ : Char}
    (h : afterHash value.toList = [r₁, r₀, g₁, g₀, b₁, b₀])
    (hhex : ∀ c ∈ afterHash value.toList, c.isHexDigit = true) :
    ofHex value =
      .ok ⟨UInt8.ofNat (pairValue r₁ r₀), UInt8.ofNat (pairValue g₁ g₀), UInt8.ofNat (pairValue b₁ b₀)⟩ := by
  simp only [h, List.forall_mem_cons] at hhex
  obtain ⟨hr₁, hr₀, hg₁, hg₀, hb₁, hb₀, -⟩ := hhex
  rw [ofHex, h, if_neg (by simp), ofDigits?, channel?_of_isHexDigit hr₁ hr₀, channel?_of_isHexDigit hg₁ hg₀,
    channel?_of_isHexDigit hb₁ hb₀]
  rfl

theorem isHexDigit_of_ofDigits? {digits : List Char} {color : Color} (h : ofDigits? digits = some color) :
    ∀ c ∈ digits, c.isHexDigit = true := by
  rw [ofDigits?.eq_def] at h
  split at h
  · obtain ⟨red, hred, h⟩ := Option.bind_eq_some_iff.1 h
    obtain ⟨green, hgreen, h⟩ := Option.bind_eq_some_iff.1 h
    obtain ⟨blue, hblue, -⟩ := Option.bind_eq_some_iff.1 h
    simp [isHexDigit_of_channel? hred, isHexDigit_of_channel? hgreen, isHexDigit_of_channel? hblue]
  · cases h

theorem ofHex_of_not_isHexDigit {value : String} (h : (afterHash value.toList).length = 6)
    (hhex : ∃ c ∈ afterHash value.toList, c.isHexDigit = false) : ofHex value = .error (.badDigit value) := by
  rw [ofHex, if_neg (by simp [h])]
  cases hdigits : ofDigits? (afterHash value.toList) with
  | none => rfl
  | some color => exact absurd (isHexDigit_of_ofDigits? hdigits) (exists_not_isHexDigit_iff.1 hhex)

/-- The three ways in which a text is read. -/
theorem ofHex_cases (value : String) :
    (afterHash value.toList).length ≠ 6 ∧ ofHex value = .error (.badLength value (afterHash value.toList).length) ∨
    ((afterHash value.toList).length = 6 ∧ ∃ c ∈ afterHash value.toList, c.isHexDigit = false) ∧
      ofHex value = .error (.badDigit value) ∨
    ∃ r₁ r₀ g₁ g₀ b₁ b₀, afterHash value.toList = [r₁, r₀, g₁, g₀, b₁, b₀] ∧
      (∀ c ∈ afterHash value.toList, c.isHexDigit = true) ∧
      ofHex value =
        .ok ⟨UInt8.ofNat (pairValue r₁ r₀), UInt8.ofNat (pairValue g₁ g₀), UInt8.ofNat (pairValue b₁ b₀)⟩ := by
  by_cases hlength : (afterHash value.toList).length = 6
  · by_cases hhex : ∃ c ∈ afterHash value.toList, c.isHexDigit = false
    · exact .inr (.inl ⟨⟨hlength, hhex⟩, ofHex_of_not_isHexDigit hlength hhex⟩)
    · rw [exists_not_isHexDigit_iff, not_not] at hhex
      obtain ⟨r₁, r₀, g₁, g₀, b₁, b₀, hdigits⟩ := exists_six hlength
      exact .inr (.inr ⟨r₁, r₀, g₁, g₀, b₁, b₀, hdigits, hhex, ofHex_of_digits hdigits hhex⟩)
  · exact .inl ⟨hlength, ofHex_of_length_ne hlength⟩

/-- Whether a byte is the code of a hexadecimal digit. -/
def isHexByte (b : UInt8) : Bool := (48 ≤ b && b ≤ 57) || (97 ≤ b && b ≤ 102) || (65 ≤ b && b ≤ 70)

/-- The text between two byte offsets; nothing if it cannot be cut there. -/
def textAt? (text : String) (start stop : Nat) : Option String :=
  if start ≤ stop ∧ (⟨start⟩ : String.Pos.Raw).IsValid text ∧ (⟨stop⟩ : String.Pos.Raw).IsValid text then
    some (String.Pos.Raw.extract text ⟨start⟩ ⟨stop⟩)
  else none

/-- Adds a digit to a number, as long as that still is a byte. -/
def pushDigit (n : Nat) (c : Char) : Option Nat :=
  match digit? c with
  | some d => if 16 * n + d < 256 then some (16 * n + d) else none
  | none => none

/-- A byte as a whole number in base 16: one or more digits, before which there may be a plus sign. -/
def byte? (text : String) : Option UInt8 :=
  let digits := match text.toList with
    | '+' :: cs => cs
    | cs => cs
  if digits.isEmpty then none else (digits.foldlM pushDigit 0).map UInt8.ofNat

/-- A channel, read off of the two bytes at an offset; `none` if they cannot be cut out. -/
def scanChannel (value digits : String) (offset : Nat) : Option (Except ColorError UInt8) :=
  (textAt? digits offset (offset + 2)).map fun pair =>
    match byte? pair with
    | some channel => .ok channel
    | none => .error (.badDigit value)

/-- The colour that a text stands for, found by its bytes: the characters are counted, every byte is tested, and then
each channel is cut out and read as a number; `none` if a cut would go through a character. -/
def scanHex (value : String) : Option (Except ColorError Color) :=
  let digits := String.ofList (afterHash value.toList)
  if digits.length ≠ 6 then some (.error (.badLength value digits.length))
  else if digits.toUTF8.data.all isHexByte then ExceptT.run do
    let red ← ExceptT.mk (scanChannel value digits 0)
    let green ← ExceptT.mk (scanChannel value digits 2)
    let blue ← ExceptT.mk (scanChannel value digits 4)
    return ⟨red, green, blue⟩
  else some (.error (.badDigit value))

theorem isHexByte_iff {b : UInt8} :
    isHexByte b = true ↔
      (48 ≤ b.toNat ∧ b.toNat ≤ 57) ∨ (97 ≤ b.toNat ∧ b.toNat ≤ 102) ∨ (65 ≤ b.toNat ∧ b.toNat ≤ 70) := by
  simp only [isHexByte, Bool.or_eq_true, Bool.and_eq_true, decide_eq_true_eq, UInt8.le_iff_toNat_le]
  exact or_assoc

/-- The bytes of a character are those of digits only if it is one: the last byte of any longer code is beyond them. -/
theorem forall_isHexByte_iff {c : Char} :
    (∀ b ∈ String.utf8EncodeChar c, isHexByte b = true) ↔ c.isHexDigit = true := by
  rw [isHexDigit_iff]
  by_cases hascii : c.toNat ≤ 127
  · have hbytes : String.utf8EncodeChar c = [UInt8.ofNat c.toNat] := if_pos hascii
    have htoNat : (UInt8.ofNat c.toNat).toNat = c.toNat := UInt8.toNat_ofNat_of_lt' (by rw [UInt8.size]; omega)
    rw [hbytes, List.forall_mem_singleton, isHexByte_iff, htoNat]
  · have hlast : UInt8.ofNat (c.toNat % 64 + 128) ∈ String.utf8EncodeChar c := by
      simp only [String.utf8EncodeChar, Char.toNat_val, if_neg hascii]
      split
      · simp
      · split <;> simp
    have htoNat : (UInt8.ofNat (c.toNat % 64 + 128)).toNat = c.toNat % 64 + 128 :=
      UInt8.toNat_ofNat_of_lt' (by rw [UInt8.size]; omega)
    refine ⟨fun h => ?_, fun h => by omega⟩
    have := isHexByte_iff.1 (h _ hlast)
    omega

theorem all_isHexByte_iff {cs : List Char} :
    (String.ofList cs).toUTF8.data.all isHexByte = true ↔ ∀ c ∈ cs, c.isHexDigit = true := by
  rw [String.toUTF8, String.toByteArray_ofList, List.utf8Encode, List.data_toByteArray, List.all_toArray,
    List.all_eq_true]
  simp only [List.mem_flatMap, ← forall_isHexByte_iff]
  exact ⟨fun h c hc b hb => h b ⟨c, hc, hb⟩, fun h b ⟨c, hc, hb⟩ => h c hc b hb⟩

theorem textAt?_size (before between after : List Char) :
    textAt? (String.ofList (before ++ between ++ after)) (size before) (size before + size between) =
      some (String.ofList between) := by
  have hstart : (⟨size before⟩ : String.Pos.Raw).IsValid (String.ofList (before ++ between ++ after)) :=
    isValid_iff_exists_take.2 ⟨before.length, by rw [String.toList_ofList, List.append_assoc, List.take_left]⟩
  have hstop : (⟨size before + size between⟩ : String.Pos.Raw).IsValid (String.ofList (before ++ between ++ after)) :=
    isValid_iff_exists_take.2
      ⟨(before ++ between).length, by rw [String.toList_ofList, List.take_left, size_append]⟩
  rw [textAt?, if_pos ⟨Nat.le_add_right _ _, hstart, hstop⟩, ← utf8Len_eq_size, ← utf8Len_eq_size]
  exact congrArg some (String.extract_of_valid before between after)

theorem size_eq_length {cs : List Char} (h : ∀ c ∈ cs, c.isHexDigit = true) : size cs = cs.length := by
  induction cs with
  | nil => rfl
  | cons c cs ih =>
    rw [List.forall_mem_cons] at h
    have hascii : c.toNat ≤ 127 := by
      have := isHexDigit_iff.1 h.1
      omega
    have hone : c.utf8Size = 1 := Char.utf8Size_eq_one_iff.2 hascii
    rw [size_cons, hone, ih h.2, List.length_cons, Nat.add_comm]

/-- A pair of digits has no sign, and the number that it is read as is a byte. -/
theorem byte?_pair {high low : Char} (hhigh : high.isHexDigit = true) (hlow : low.isHexDigit = true) :
    byte? (String.ofList [high, low]) = some (UInt8.ofNat (pairValue high low)) := by
  have hsign : high ≠ '+' := by
    rintro rfl
    cases hhigh
  have hlt := digitValue_lt hhigh
  have hlt' := digitValue_lt hlow
  have hfirst : pushDigit 0 high = some (digitValue high) := by
    simp only [pushDigit, digit?_of_isHexDigit hhigh]
    rw [if_pos (by omega), Nat.mul_zero, Nat.zero_add]
  have hsecond : pushDigit (digitValue high) low = some (pairValue high low) := by
    simp only [pushDigit, digit?_of_isHexDigit hlow]
    rw [if_pos (by omega), pairValue]
  have hfold : [high, low].foldlM pushDigit 0 = some (pairValue high low) := by
    rw [List.foldlM_cons, hfirst, Option.bind_eq_bind, Option.bind_some, List.foldlM_cons, hsecond]
    rfl
  rw [byte?, String.toList_ofList]
  split
  · rename_i heq
    exact absurd (List.cons.inj heq).1 hsign
  · rw [hfold]
    rfl

theorem scanChannel_of_isHexDigit (value : String) (before after : List Char) {high low : Char}
    (h : ∀ c ∈ before ++ [high, low] ++ after, c.isHexDigit = true) :
    scanChannel value (String.ofList (before ++ [high, low] ++ after)) before.length =
      some (.ok (UInt8.ofNat (pairValue high low))) := by
  have hbefore : size before = before.length := size_eq_length fun c hc => h c (by simp [hc])
  have hpair : size [high, low] = 2 :=
    size_eq_length fun c hc => h c (List.mem_append_left _ (List.mem_append_right _ hc))
  have htext := textAt?_size before [high, low] after
  rw [hbefore, hpair] at htext
  rw [scanChannel, htext, Option.map_some, byte?_pair (h high (by simp)) (h low (by simp))]

/-- **The bytes of a text tell the same as its characters**, and no cut goes through one. -/
theorem scanHex_eq (value : String) : scanHex value = some (ofHex value) := by
  simp only [scanHex, String.length_ofList]
  rcases ofHex_cases value with ⟨hlength, hvalue⟩ | ⟨⟨hlength, hbad⟩, hvalue⟩ |
    ⟨r₁, r₀, g₁, g₀, b₁, b₀, hdigits, hhex, hvalue⟩
  · rw [if_pos hlength, hvalue]
  · rw [if_neg (by simp [hlength]), if_neg (mt all_isHexByte_iff.1 (exists_not_isHexDigit_iff.1 hbad)), hvalue]
  · rw [if_neg (by simp [hdigits]), if_pos (all_isHexByte_iff.2 hhex), hvalue]
    rw [hdigits] at hhex ⊢
    have hred : scanChannel value (String.ofList [r₁, r₀, g₁, g₀, b₁, b₀]) 0 = _ :=
      scanChannel_of_isHexDigit value [] [g₁, g₀, b₁, b₀] hhex
    have hgreen : scanChannel value (String.ofList [r₁, r₀, g₁, g₀, b₁, b₀]) 2 = _ :=
      scanChannel_of_isHexDigit value [r₁, r₀] [b₁, b₀] hhex
    have hblue : scanChannel value (String.ofList [r₁, r₀, g₁, g₀, b₁, b₀]) 4 = _ :=
      scanChannel_of_isHexDigit value [r₁, r₀, g₁, g₀] [] hhex
    rw [hred, hgreen, hblue]
    rfl

/-- Each pair here is a number with its sign, but no byte that passes the test is a sign. -/
example : byte? "+1" = some 1 ∧ scanHex "+1+2+3" = some (.error (.badDigit "+1+2+3")) := by decide +kernel

/-- Six digits are written back in lower case. -/
theorem toHex_of_digits {digits : List Char} {r₁ r₀ g₁ g₀ b₁ b₀ : Char} (h : digits = [r₁, r₀, g₁, g₀, b₁, b₀])
    (hhex : ∀ c ∈ digits, c.isHexDigit = true) :
    toHex ⟨UInt8.ofNat (pairValue r₁ r₀), UInt8.ofNat (pairValue g₁ g₀), UInt8.ofNat (pairValue b₁ b₀)⟩ =
      String.ofList ('#' :: digits.map Char.toLower) := by
  subst h
  simp only [List.forall_mem_cons] at hhex
  obtain ⟨hr₁, hr₀, hg₁, hg₀, hb₁, hb₀, -⟩ := hhex
  rw [toHex, channelChars_pairValue hr₁ hr₀, channelChars_pairValue hg₁ hg₀, channelChars_pairValue hb₁ hb₀]
  rfl

section Reading

variable {value : String} {color : Color}

theorem ofHex_eq_ok_iff :
    ofHex value = .ok color ↔
      ∃ r₁ r₀ g₁ g₀ b₁ b₀, afterHash value.toList = [r₁, r₀, g₁, g₀, b₁, b₀] ∧
        (∀ c ∈ afterHash value.toList, c.isHexDigit = true) ∧
        color.red.toNat = pairValue r₁ r₀ ∧ color.green.toNat = pairValue g₁ g₀ ∧ color.blue.toNat = pairValue b₁ b₀ := by
  constructor
  · intro h
    rcases ofHex_cases value with ⟨-, hvalue⟩ | ⟨-, hvalue⟩ | ⟨r₁, r₀, g₁, g₀, b₁, b₀, hdigits, hhex, hvalue⟩
    · cases hvalue.symm.trans h
    · cases hvalue.symm.trans h
    · cases hvalue.symm.trans h
      have hall := hhex
      simp only [hdigits, List.forall_mem_cons] at hall
      obtain ⟨hr₁, hr₀, hg₁, hg₀, hb₁, hb₀, -⟩ := hall
      exact ⟨r₁, r₀, g₁, g₀, b₁, b₀, hdigits, hhex, toNat_pairValue hr₁ hr₀, toNat_pairValue hg₁ hg₀,
        toNat_pairValue hb₁ hb₀⟩
  · rintro ⟨r₁, r₀, g₁, g₀, b₁, b₀, hdigits, hhex, hred, hgreen, hblue⟩
    rw [ofHex_of_digits hdigits hhex, ← hred, ← hgreen, ← hblue, UInt8.ofNat_toNat, UInt8.ofNat_toNat,
      UInt8.ofNat_toNat]

theorem ofHex_eq_badLength_iff {text : String} {count : Nat} :
    ofHex value = .error (.badLength text count) ↔
      text = value ∧ count = (afterHash value.toList).length ∧ (afterHash value.toList).length ≠ 6 := by
  rcases ofHex_cases value with ⟨hlength, hvalue⟩ | ⟨⟨hlength, -⟩, hvalue⟩ | ⟨_, _, _, _, _, _, hdigits, -, hvalue⟩
  · simp [hvalue, hlength, eq_comm]
  · simp [hvalue, hlength]
  · simp [hvalue, hdigits]

theorem ofHex_eq_badDigit_iff {text : String} :
    ofHex value = .error (.badDigit text) ↔
      text = value ∧ (afterHash value.toList).length = 6 ∧ ∃ c ∈ afterHash value.toList, c.isHexDigit = false := by
  rcases ofHex_cases value with ⟨hlength, hvalue⟩ | ⟨hbad, hvalue⟩ | ⟨_, _, _, _, _, _, -, hhex, hvalue⟩
  · simp [hvalue, hlength]
  · rw [hvalue, Except.error.injEq, ColorError.badDigit.injEq, and_iff_left hbad, eq_comm]
  · have hnone : ¬ ∃ c ∈ afterHash value.toList, c.isHexDigit = false :=
      fun hbad => exists_not_isHexDigit_iff.1 hbad hhex
    simp only [hvalue, reduceCtorEq, hnone, and_false]

theorem ofHex_ne_missing (value : String) (ref : ColorRef) : ofHex value ≠ .error (.missing ref) := by
  rcases ofHex_cases value with ⟨-, hvalue⟩ | ⟨-, hvalue⟩ | ⟨_, _, _, _, _, _, -, -, hvalue⟩ <;> simp [hvalue]

/-- What is read is written back with its digits in lower case, and no other colour is written so. -/
theorem ofHex_eq_ok_iff_toHex :
    ofHex value = .ok color ↔
      (afterHash value.toList).length = 6 ∧ (∀ c ∈ afterHash value.toList, c.isHexDigit = true) ∧
        color.toHex = String.ofList ('#' :: (afterHash value.toList).map Char.toLower) := by
  rcases ofHex_cases value with ⟨hlength, hvalue⟩ | ⟨⟨-, hbad⟩, hvalue⟩ |
    ⟨r₁, r₀, g₁, g₀, b₁, b₀, hdigits, hhex, hvalue⟩
  · simp [hvalue, hlength]
  · have hall : ¬ ∀ c ∈ afterHash value.toList, c.isHexDigit = true := exists_not_isHexDigit_iff.1 hbad
    simp only [hvalue, reduceCtorEq, hall, false_and, and_false]
  · have hlength : (afterHash value.toList).length = 6 := by rw [hdigits]; rfl
    rw [hvalue, ← toHex_of_digits hdigits hhex, toHex_inj, Except.ok.injEq, eq_comm]
    exact ⟨fun h => ⟨hlength, hhex, h⟩, fun h => h.2.2⟩

end Reading

/-- **Reading a colour.** A text stands for a colour if and only if six hexadecimal digits and nothing else follow its
`#`, if it has one, and each pair of them gives a channel. Otherwise the error tells the number of characters, if it is
not six, and else that some character is no digit. Reading by bytes comes to the same and never cuts a character. The
text of a colour reads back as the colour, and what is read is written back with its digits in lower case. -/
theorem ofHex_reads_six_digits :
    (∀ value : String,
      let digits := afterHash value.toList
      (∀ color, ofHex value = .ok color ↔
        ∃ r₁ r₀ g₁ g₀ b₁ b₀, digits = [r₁, r₀, g₁, g₀, b₁, b₀] ∧ (∀ c ∈ digits, c.isHexDigit = true) ∧
          color.red.toNat = pairValue r₁ r₀ ∧ color.green.toNat = pairValue g₁ g₀ ∧
          color.blue.toNat = pairValue b₁ b₀) ∧
      (∀ text count, ofHex value = .error (.badLength text count) ↔
        text = value ∧ count = digits.length ∧ digits.length ≠ 6) ∧
      (∀ text, ofHex value = .error (.badDigit text) ↔
        text = value ∧ digits.length = 6 ∧ ∃ c ∈ digits, c.isHexDigit = false) ∧
      (∀ ref, ofHex value ≠ .error (.missing ref)) ∧
      scanHex value = some (ofHex value) ∧
      ∀ color, ofHex value = .ok color ↔
        digits.length = 6 ∧ (∀ c ∈ digits, c.isHexDigit = true) ∧
          color.toHex = String.ofList ('#' :: digits.map Char.toLower)) ∧
    ∀ color : Color, ofHex color.toHex = .ok color := by
  refine ⟨fun value => ?_, ofHex_toHex⟩
  exact ⟨fun color => ofHex_eq_ok_iff, fun text count => ofHex_eq_badLength_iff, fun text => ofHex_eq_badDigit_iff,
    ofHex_ne_missing value, scanHex_eq value, fun color => ofHex_eq_ok_iff_toHex⟩

end Highlight.Color
