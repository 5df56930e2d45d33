/-
Scopes as texts. The name of a scope that was read from a text is that text
without the blanks around it and without the dots at its end
(`toList_name_of_parse`). So it names the same scope again (`parse_name`), unless
blanks have come to stand at its end or only dots were there. No such thing
happens to a plain scope, read from a text without blanks that is not all dots
(`Scope.Plain.parse_name`).
-/
import Highlight.Proofs.Text.Blank
import Highlight.Proofs.Text.Lines
import Highlight.Scope

namespace Highlight.Scope

variable {s : Scope} {text : String}

theorem dropDots_eq (cs : List Char) : dropDots cs = cs.rdropWhile (· == '.') := rfl

theorem dropDots_dropDots (cs : List Char) : dropDots (dropDots cs) = dropDots cs := by
  rw [dropDots_eq, dropDots_eq, List.rdropWhile_idempotent]

theorem dropDots_eq_nil_iff {cs : List Char} : dropDots cs = [] ↔ ∀ c ∈ cs, c = '.' := by
  simp [dropDots_eq, List.rdropWhile_eq_nil_iff]

theorem dropDots_subset (cs : List Char) : dropDots cs ⊆ cs := (List.rdropWhile_prefix _ cs).subset

theorem atomsOf_dropDots (cs : List Char) : atomsOf (dropDots cs) = atomsOf cs := by
  rw [atomsOf, dropDots_dropDots, ← atomsOf]

/-- The atoms of a text, with dots between them again, are the text without the dots at its end. -/
theorem toList_name_atomsOf (cs : List Char) : (name ⟨atomsOf cs⟩).toList = dropDots cs := by
  rw [name, atomsOf, Text.toList_intercalate_ofList, Text.cut_beq]
  exact List.intercalate_splitOn '.'

theorem parse_of_trimChars_eq_nil (h : Text.trimChars text.toList = []) : parse text = .ok empty := by
  rw [parse, h]

/-- A text that is not blank names the scope of its atoms, if they are not too many. -/
theorem parse_eq_ok_iff (h : Text.trimChars text.toList ≠ []) :
    parse text = .ok s ↔
      s = ⟨atomsOf (Text.trimChars text.toList)⟩ ∧ (atomsOf (Text.trimChars text.toList)).length ≤ maxAtoms := by
  rw [parse]
  split
  · rename_i hnil
    exact absurd hnil h
  · by_cases hlength : (atomsOf (Text.trimChars text.toList)).length ≤ maxAtoms
    · simp [hlength, eq_comm]
    · simp [hlength]

theorem toList_name_of_parse (h : parse text = .ok s) : s.name.toList = dropDots (Text.trimChars text.toList) := by
  by_cases hnil : Text.trimChars text.toList = []
  · cases (parse_of_trimChars_eq_nil hnil).symm.trans h
    rw [hnil]
    rfl
  · obtain ⟨rfl, -⟩ := (parse_eq_ok_iff hnil).1 h
    exact toList_name_atomsOf _

/-- **The name of a scope names it again**, if the scope was read from a text and no blanks stand around the name. Only
the scope of one empty atom has lost all of its text by then. -/
theorem parse_name (h : parse text = .ok s) (htrim : Text.trim s.name = s.name) (hne : s.name = "" → s = empty) :
    parse s.name = .ok s := by
  by_cases hempty : s.name = ""
  · rw [hempty, hne hempty]
    rfl
  have hname := toList_name_of_parse h
  have htrim' : Text.trimChars s.name.toList = s.name.toList := by rw [← Text.toList_trim, htrim]
  have hchars : s.name.toList ≠ [] := fun hnil => hempty (String.toList_inj.1 hnil)
  have hnil : Text.trimChars text.toList ≠ [] := by
    intro hnil
    rw [hnil] at hname
    exact hchars hname
  obtain ⟨hs, hlength⟩ := (parse_eq_ok_iff hnil).1 h
  rw [parse_eq_ok_iff (by rwa [htrim']), htrim', hname, atomsOf_dropDots]
  exact ⟨hs, hlength⟩

example : parse (name ⟨[""]⟩) = .ok empty := rfl

/-- A scope as the definition of a language writes it: without atoms, or read from a text without blanks that does not
consist of dots. -/
def Plain (s : Scope) : Prop :=
  s = empty ∨ ∃ text, parse text = .ok s ∧ (∀ c ∈ text.toList, Text.isBlank c = false) ∧ ∃ c ∈ text.toList, c ≠ '.'

theorem Plain.parse_name (h : s.Plain) : parse s.name = .ok s := by
  rcases h with rfl | ⟨text, hparse, hblank, c, hc, hdot⟩
  · rfl
  · have hname := toList_name_of_parse hparse
    rw [Text.trimChars_of_forall hblank] at hname
    have htrim : Text.trim s.name = s.name := by
      rw [← String.toList_inj, Text.toList_trim, hname]
      exact Text.trimChars_of_forall fun c hc => hblank c (dropDots_subset _ hc)
    refine Scope.parse_name hparse htrim fun hempty => ?_
    rw [hempty] at hname
    exact absurd (dropDots_eq_nil_iff.1 hname.symm c hc) hdot

end Highlight.Scope
