/-
The lines of a text and the text of its lines. `join_split`: the lines, put
together again, are the text. `not_mem_of_mem_split`: no line has a line feed,
and so (`length_split`) there is one line more than there are line feeds.
`split_join`: lines without line feeds are found again. `split_append`: a line
feed between two texts parts their lines. `sum_size_split` counts the bytes of a
text line by line. Together, splitting and joining undo each other
(`split_inverts_join`).
-/
import Highlight.Text
import Highlight.Text.Bytes
import Mathlib.Algebra.Ring.Nat
import Mathlib.Data.List.Basic

namespace Highlight.Text

theorem cut_eq_splitOnP (separates : Char → Bool) (cs : List Char) :
    cut separates cs = cs.splitOnP separates := by
  induction cs with
  | nil => rfl
  | cons c cs ih => rw [cut_cons, ih, List.splitOnP_cons_eq_if_modifyHead]

theorem cut_beq (c : Char) (cs : List Char) : cut (· == c) cs = cs.splitOn c := by
  rw [cut_eq_splitOnP, List.splitOn_eq_splitOnP]

theorem not_mem_of_mem_cut {separates : Char → Bool} {c : Char} (hc : separates c = true) {cs piece : List Char}
    (h : piece ∈ cut separates cs) : c ∉ piece := by
  induction cs generalizing piece with
  | nil =>
    rw [cut_nil, List.mem_singleton] at h
    simp [h]
  | cons d cs ih =>
    rw [cut_cons] at h
    split at h
    · rcases List.mem_cons.1 h with rfl | h
      · simp
      · exact ih h
    · rename_i hd
      cases hp : cut separates cs with
      | nil => simp [hp] at h
      | cons p ps =>
        simp only [hp, List.modifyHead_cons, List.mem_cons] at h
        rcases h with rfl | h
        · simp only [List.mem_cons, not_or]
          exact ⟨fun he => hd (he ▸ hc), ih (by simp [hp])⟩
        · exact ih (by simp [hp, h])

/-- A text without separators stands in front of the first piece. -/
theorem cut_append_of_forall {separates : Char → Bool} {as : List Char} (has : ∀ a ∈ as, separates a = false)
    (bs : List Char) : cut separates (as ++ bs) = (cut separates bs).modifyHead (as ++ ·) := by
  induction as with
  | nil =>
    have hid : (fun piece : List Char => [] ++ piece) = id := rfl
    rw [List.nil_append, hid, List.modifyHead_id]
    rfl
  | cons a as ih =>
    obtain ⟨ha, has⟩ := List.forall_mem_cons.1 has
    rw [List.cons_append, cut_cons, ha, if_neg Bool.false_ne_true, ih has, List.modifyHead_modifyHead]
    rfl

theorem cut_of_forall {separates : Char → Bool} {cs : List Char} (hcs : ∀ c ∈ cs, separates c = false) :
    cut separates cs = [cs] := by
  have := cut_append_of_forall hcs []
  rwa [List.append_nil, cut_nil, List.modifyHead_cons, List.append_nil] at this

/-- A separator between two texts parts their pieces. -/
theorem cut_append_cons {separates : Char → Bool} {c : Char} (hc : separates c = true) (as bs : List Char) :
    cut separates (as ++ c :: bs) = cut separates as ++ cut separates bs := by
  induction as with
  | nil => rw [List.nil_append, cut_cons, if_pos hc, cut_nil, List.singleton_append]
  | cons a as ih =>
    rw [List.cons_append, cut_cons, cut_cons, ih]
    split
    · rfl
    · cases hpieces : cut separates as with
      | nil =>
        have hlength := length_cut separates as
        simp [hpieces] at hlength
      | cons piece pieces => rfl

/-- Pieces put together as texts have the characters of the pieces put together. -/
theorem toList_intercalate_ofList (between : String) (pieces : List (List Char)) :
    (between.intercalate (pieces.map String.ofList)).toList = between.toList.intercalate pieces := by
  have hchars : (String.toList ∘ String.ofList) = (id : List Char → List Char) := funext fun _ => String.toList_ofList
  rw [String.toList_intercalate, List.map_map, hchars, List.map_id]

namespace Lines

theorem split_append (a b : String) : split (a ++ "\n" ++ b) = split a ++ split b := by
  have hchars : (a ++ "\n" ++ b).toList = a.toList ++ '\n' :: b.toList := by
    rw [String.toList_append, String.toList_append, List.append_assoc]
    rfl
  rw [split, splitChars, hchars, cut_append_cons rfl, List.map_append]
  rfl

theorem join_split (text : String) : join (split text) = text := by
  rw [join, ← String.toList_inj, split, toList_intercalate_ofList, splitChars, cut_beq]
  exact List.intercalate_splitOn '\n'

/-- The lines, each with a line feed after it, are the text with one after it. -/
theorem flatMap_split (text : String) :
    ((split text).flatMap fun line => line.toList ++ ['\n']) = text.toList ++ ['\n'] := by
  have hpieces : ∀ cs, ((splitChars cs).flatMap fun piece => piece ++ ['\n']) = cs ++ ['\n'] := by
    intro cs
    induction cs with
    | nil => rfl
    | cons c cs ih =>
      rw [splitChars, cut_cons, ← splitChars]
      split
      · rename_i hc
        rw [List.flatMap_cons, ih, beq_iff_eq.1 hc]
        rfl
      · cases hsplit : splitChars cs with
        | nil => simp [hsplit] at ih
        | cons piece pieces =>
          rw [hsplit, List.flatMap_cons] at ih
          rw [List.modifyHead_cons, List.flatMap_cons, List.cons_append, List.cons_append, List.cons_append, ih]
  rw [split, List.flatMap_map]
  simp only [String.toList_ofList]
  exact hpieces text.toList

theorem not_mem_of_mem_split {text line : String} (h : line ∈ split text) : '\n' ∉ line.toList := by
  rw [split, List.mem_map] at h
  obtain ⟨piece, hpiece, rfl⟩ := h
  rw [String.toList_ofList]
  exact not_mem_of_mem_cut rfl hpiece

theorem length_split (text : String) : (split text).length = text.toList.count '\n' + 1 := by
  rw [split, List.length_map, splitChars, length_cut, List.count]

theorem split_ne_nil (text : String) : split text ≠ [] := by
  rw [← List.length_pos_iff, length_split]
  exact Nat.succ_pos _

/-- Lines without line feeds are found again in their text. -/
theorem split_join {lines : List String} (hne : lines ≠ []) (hlines : ∀ line ∈ lines, '\n' ∉ line.toList) :
    split (join lines) = lines := by
  have hpieces : ∀ piece ∈ lines.map String.toList, '\n' ∉ piece := by
    rw [List.forall_mem_map]
    exact hlines
  have htexts : (String.ofList ∘ String.toList) = (id : String → String) := funext fun _ => String.ofList_toList
  rw [split, splitChars, cut_beq, join, String.toList_intercalate]
  show ((['\n'].intercalate (lines.map String.toList)).splitOn '\n').map String.ofList = lines
  rw [List.splitOn_intercalate '\n' hpieces (List.map_eq_nil_iff.not.2 hne), List.map_map, htexts, List.map_id]

/-- The lines have all other characters of the text, in their order. -/
theorem flatMap_toList_split (text : String) :
    (split text).flatMap String.toList = text.toList.filter (· ≠ '\n') := by
  have hfeed : ['\n'].filter (· ≠ '\n') = [] := rfl
  have hline : ∀ line ∈ split text, (line.toList ++ ['\n']).filter (· ≠ '\n') = line.toList := by
    intro line hline
    rw [List.filter_append, hfeed, List.append_nil, List.filter_eq_self]
    intro c hc
    exact decide_eq_true fun hc' => not_mem_of_mem_split hline (hc' ▸ hc)
  have hwhole := congrArg (List.filter (· ≠ '\n')) (flatMap_split text)
  rw [List.filter_flatMap, List.filter_append, hfeed, List.append_nil] at hwhole
  rw [← hwhole]
  exact List.flatMap_congr fun line h => (hline line h).symm

theorem size_flatMap_feed (lines : List String) :
    Bytes.size (lines.flatMap fun line => line.toList ++ ['\n']) =
      (lines.map fun line => Bytes.size line.toList).sum + lines.length := by
  induction lines with
  | nil => rfl
  | cons line lines ih =>
    have hfeed : Bytes.size ['\n'] = 1 := rfl
    rw [List.flatMap_cons, Bytes.size_append, Bytes.size_append, ih, hfeed, List.map_cons, List.sum_cons, List.length_cons]
    omega

/-- The bytes of the lines, and one for each, are those of the text and one more. -/
theorem sum_size_split (text : String) :
    ((split text).map fun line => Bytes.size line.toList).sum + (split text).length = Bytes.size text.toList + 1 := by
  rw [← size_flatMap_feed, flatMap_split, Bytes.size_append]
  rfl

/-- **Splitting into lines is the inverse of joining them.** A text has at least one line, one more than it has line
feeds; no line has a line feed, and joined they are the text. Of lists of lines, those come back from their join that
are not empty and whose lines have no line feed. All characters but the line feeds stay in the lines, in their order,
and a line feed between two texts parts their lines. -/
theorem split_inverts_join (text a b : String) (lines : List String) :
    (split text ≠ [] ∧ (∀ line ∈ split text, '\n' ∉ line.toList) ∧ join (split text) = text ∧
      (split text).length = text.toList.count '\n' + 1) ∧
    (split (join lines) = lines ↔ lines ≠ [] ∧ ∀ line ∈ lines, '\n' ∉ line.toList) ∧
    (split text).flatMap String.toList = text.toList.filter (· ≠ '\n') ∧
    split (a ++ "\n" ++ b) = split a ++ split b := by
  refine ⟨⟨split_ne_nil text, fun _ => not_mem_of_mem_split, join_split text, length_split text⟩, ⟨fun hlines => ?_, ?_⟩,
    flatMap_toList_split text, split_append a b⟩
  · -- What splitting gives is such a list, whatever was split.
    rw [← hlines]
    exact ⟨split_ne_nil _, fun _ => not_mem_of_mem_split⟩
  · rintro ⟨hne, hfree⟩
    exact split_join hne hfree

/-- A carriage return and the separators of lines and paragraphs stay where they are. -/
example : split "\na\r\n\u2028\u2029b\n" = ["", "a\r", "\u2028\u2029b", ""] := by decide +kernel

end Lines

end Highlight.Text
