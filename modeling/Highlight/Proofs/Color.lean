/-
Colours written and read back. A channel is written as two digits that stand
for it (`channel?_channelChars`), so reading the text of a colour gives the
colour (`ofHex_toHex`), and different colours have different texts. The text is
a `#` with six lower-case digits (`toList_toHex`).
-/
import Highlight.Color

namespace Highlight.Color

theorem eq_iff {c d : Color} : c = d ↔ c.red = d.red ∧ c.green = d.green ∧ c.blue = d.blue := by
  cases c
  cases d
  rw [mk.injEq]

theorem digit?_digitChar {n : Nat} (h : n < 16) : digit? n.digitChar = some n := by
  have hall : ∀ d ∈ List.range 16, digit? d.digitChar = some d := by decide
  exact hall n (List.mem_range.2 h)

/-- The two digits of a channel stand for it. -/
theorem channel?_channelChars (c : UInt8) : channel? (c.toNat / 16).digitChar (c.toNat % 16).digitChar = some c := by
  have hlt : c.toNat < 256 := c.toNat_lt
  have hhigh : digit? (c.toNat / 16).digitChar = some (c.toNat / 16) := digit?_digitChar (by omega)
  have hlow : digit? (c.toNat % 16).digitChar = some (c.toNat % 16) := digit?_digitChar (by omega)
  have hwhole : 16 * (c.toNat / 16) + c.toNat % 16 = c.toNat := by omega
  rw [channel?, hhigh, hlow]
  show some (UInt8.ofNat (16 * (c.toNat / 16) + c.toNat % 16)) = some c
  rw [hwhole, UInt8.ofNat_toNat]

/-- **The text of a colour stands for the colour.** -/
theorem ofHex_toHex (c : Color) : ofHex c.toHex = .ok c := by
  have hdigits : afterHash c.toHex.toList = channelChars c.red ++ channelChars c.green ++ channelChars c.blue := by
    rw [toHex, String.toList_ofList]
    rfl
  have hread : ofDigits? (afterHash c.toHex.toList) = some c := by
    rw [hdigits]
    simp only [channelChars, List.cons_append, List.nil_append, ofDigits?, channel?_channelChars]
    rfl
  have hlength : (afterHash c.toHex.toList).length = 6 := by rw [hdigits]; rfl
  simp only [ofHex, hlength, hread, ne_eq, not_true_eq_false, if_false]

/-- Different colours have different texts. -/
theorem toHex_inj {c d : Color} : c.toHex = d.toHex ↔ c = d := by
  refine ⟨fun h => ?_, fun h => h ▸ rfl⟩
  have hread := ofHex_toHex c
  rw [h, ofHex_toHex] at hread
  exact (Except.ok.inj hread).symm

theorem mem_digits_of_mem_channelChars {c : UInt8} {d : Char} (h : d ∈ channelChars c) :
    d ∈ "0123456789abcdef".toList := by
  have hall : ∀ n ∈ List.range 16, n.digitChar ∈ "0123456789abcdef".toList := by decide
  have hlt : c.toNat < 256 := c.toNat_lt
  rw [channelChars, List.mem_cons, List.mem_singleton] at h
  rcases h with rfl | rfl
  · exact hall _ (List.mem_range.2 (by omega))
  · exact hall _ (List.mem_range.2 (by omega))

/-- The text of a colour is a `#` with six digits, none of them in upper case. -/
theorem toList_toHex (c : Color) : ∃ digits, c.toHex.toList = '#' :: digits ∧ digits.length = 6 ∧
    ∀ d ∈ digits, d ∈ "0123456789abcdef".toList := by
  refine ⟨channelChars c.red ++ channelChars c.green ++ channelChars c.blue, String.toList_ofList, rfl, fun d hd => ?_⟩
  rw [List.mem_append, List.mem_append] at hd
  rcases hd with (hd | hd) | hd
  · exact mem_digits_of_mem_channelChars hd
  · exact mem_digits_of_mem_channelChars hd
  · exact mem_digits_of_mem_channelChars hd

end Highlight.Color
