/-
Trimming. What is left of a text begins and ends with characters that are not
blank, so trimming it again changes nothing (`trim_trim`), and a text without
blanks stays as it is (`trimChars_of_forall`).
-/
import Highlight.Text
import Mathlib.Data.List.DropRight

namespace Highlight.Text

variable {cs : List Char}

theorem trimChars_eq (cs : List Char) : trimChars cs = (cs.dropWhile isBlank).rdropWhile isBlank := rfl

theorem trimChars_of_forall (hcs : ∀ c ∈ cs, isBlank c = false) : trimChars cs = cs := by
  have hfront : cs.dropWhile isBlank = cs := by
    cases cs with
    | nil => rfl
    | cons c cs => exact List.dropWhile_cons_of_neg (by simp [hcs c])
  rw [trimChars_eq, hfront, List.rdropWhile_eq_self_iff]
  intro hne
  simp [hcs _ (List.getLast_mem hne)]

theorem trimChars_trimChars (cs : List Char) : trimChars (trimChars cs) = trimChars cs := by
  have hfront : (trimChars cs).dropWhile isBlank = trimChars cs := by
    -- Unless nothing is left, it begins where the blanks at the front end.
    obtain ⟨behind, hbehind⟩ := List.rdropWhile_prefix isBlank (cs.dropWhile isBlank)
    rw [← trimChars_eq] at hbehind
    cases hleft : trimChars cs with
    | nil => rfl
    | cons c left =>
      have hfirst := List.head?_dropWhile_not isBlank cs
      rw [← hbehind, hleft] at hfirst
      exact List.dropWhile_cons_of_neg (by simpa using hfirst)
  rw [trimChars_eq (trimChars cs), hfront, trimChars_eq, List.rdropWhile_idempotent]

@[simp] theorem toList_trim (text : String) : (trim text).toList = trimChars text.toList := String.toList_ofList

@[simp] theorem trim_trim (text : String) : trim (trim text) = trim text := by
  rw [← String.toList_inj, toList_trim, toList_trim, trimChars_trimChars]

end Highlight.Text
