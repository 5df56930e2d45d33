/-
The swatches of a stylesheet. After some colours were added, in whatever order
and how often, the texts are those of the different ones in order of first use
(`Swatches.after`), and what was returned for a colour is its place among them
(`refAmong`), which the table of references has in its row and later colours do
not move. There are fewer colours than places, so no place is cut off, and the
text at a colour's place reads back as the colour (`colorOf_refAmong`).
-/
import Highlight.Painter
import Highlight.Stylesheet
import Highlight.Proofs.Color
import Highlight.Proofs.Lists
import Mathlib.Data.Fintype.Prod
import Mathlib.Data.Fintype.Card

namespace Highlight

namespace Color

/-- The channels as numbers. -/
def channels (c : Color) : Fin 256 × Fin 256 × Fin 256 := (c.red.toFin, c.green.toFin, c.blue.toFin)

theorem channels_injective : Function.Injective channels := by
  intro c d h
  simp only [channels, Prod.mk.injEq, UInt8.toFin_inj] at h
  exact eq_iff.2 h

/-- There are no more colours than numbers of three bytes. -/
theorem length_le_of_nodup {colors : List Color} (h : colors.Nodup) : colors.length ≤ 2 ^ 24 := by
  have hcard := (h.map channels_injective).length_le_card
  rw [List.length_map, Fintype.card_prod, Fintype.card_prod, Fintype.card_fin] at hcard
  omega

end Color

/-- The colours that an entry uses, the foreground first. -/
def StyleItem.colors (item : StyleItem ς) : List Color :=
  (item.foreground.toList ++ item.background.toList).map Paint.color

theorem StyleItem.foreground_mem_colors {item : StyleItem ς} {paint : Paint} (h : item.foreground = some paint) :
    paint.color ∈ item.colors := by
  simp [colors, h]

theorem StyleItem.background_mem_colors {item : StyleItem ς} {paint : Paint} (h : item.background = some paint) :
    paint.color ∈ item.colors := by
  simp [colors, h]

namespace Swatches

/-- The reference of a colour: its place among the different colours that were added. -/
def refAmong (used : List Color) (c : Color) : ColorRef := ⟨UInt32.ofNat (used.eraseDups.idxOf c)⟩

/-- The swatches after these colours were added in turn. -/
def after (used : List Color) : Swatches where
  texts := used.eraseDups.map Color.toHex
  refs := used.eraseDups.reverse.map fun c => (c.toHex, refAmong used c)

variable {used : List Color} {c : Color}

/-- A table with a row for each of some colours leads from the text of a colour to its row. -/
theorem lookup_map_toHex (row : Color → ColorRef) (colors : List Color) (c : Color) :
    (colors.map fun c => (c.toHex, row c)).lookup c.toHex = if c ∈ colors then some (row c) else none := by
  induction colors with
  | nil => rfl
  | cons first colors ih =>
    rw [List.map_cons, List.lookup_cons, ih]
    by_cases h : c = first
    · subst h
      simp
    · have htext : (c.toHex == first.toHex) = false := beq_eq_false_iff_ne.2 fun he => h (Color.toHex_inj.1 he)
      simp [htext, h]

/-- Colours that are added later do not move a colour. -/
theorem refAmong_append (h : c ∈ used) (more : List Color) : refAmong (used ++ more) c = refAmong used c := by
  rw [refAmong, List.eraseDups_append, List.idxOf_append_of_mem (List.mem_eraseDups.2 h), refAmong]

/-- A new colour comes after those that are there. -/
theorem idxOf_eraseDups_append_singleton (h : c ∉ used) :
    (used ++ [c]).eraseDups.idxOf c = used.eraseDups.length := by
  rw [eraseDups_append_singleton, if_neg h, List.idxOf_append_of_notMem (mt List.mem_eraseDups.1 h),
    List.idxOf_cons_self, Nat.add_zero]

theorem refAmong_append_singleton (h : c ∉ used) :
    refAmong (used ++ [c]) c = ⟨UInt32.ofNat used.eraseDups.length⟩ := by
  rw [refAmong, idxOf_eraseDups_append_singleton h]

/-- The rows that colours have in the table stay as they are. -/
theorem map_refAmong_append (used more : List Color) :
    (used.eraseDups.reverse.map fun c => (c.toHex, refAmong (used ++ more) c)) =
      used.eraseDups.reverse.map fun c => (c.toHex, refAmong used c) :=
  List.map_congr_left fun c hc => by
    rw [refAmong_append (List.mem_eraseDups.1 (List.mem_reverse.1 hc))]

/-- Adding a colour gives it its place among the colours then, and leaves the swatches after one colour more. -/
theorem add_after (used : List Color) (c : Color) :
    (after used).add c = (refAmong (used ++ [c]) c, after (used ++ [c])) := by
  simp only [add, after, lookup_map_toHex, List.mem_reverse, List.mem_eraseDups, eraseDups_append_singleton]
  by_cases h : c ∈ used
  · rw [if_pos h, if_pos h, List.append_nil, map_refAmong_append, refAmong_append h]
  · rw [if_neg h, if_neg h, List.map_append, List.map_singleton, List.reverse_concat, List.map_cons,
      map_refAmong_append, refAmong_append_singleton h, List.length_map]

theorem add?_after (used : List Color) (paint : Option Paint) :
    (after used).add? paint =
      (paint.map fun p => refAmong (used ++ paint.toList.map Paint.color) p.color,
        after (used ++ paint.toList.map Paint.color)) := by
  cases paint with
  | none => simp [add?]
  | some p => simp [add?, add_after]

end Swatches

/-- The rule of an entry in a table of these colours. -/
def StyleItem.ruleAmong (used : List Color) (item : StyleItem ς) : Rule where
  foreground := item.foreground.map fun paint => Swatches.refAmong used paint.color
  background := item.background.map fun paint => Swatches.refAmong used paint.color
  font := item.font.map SheetFont.toBits

theorem StyleItem.ruleAmong_append {used : List Color} {item : StyleItem ς} (h : item.colors ⊆ used)
    (more : List Color) : item.ruleAmong (used ++ more) = item.ruleAmong used := by
  have hkept (paint : Option Paint) (hpaint : paint.toList ⊆ item.foreground.toList ++ item.background.toList) :
      (paint.map fun p => Swatches.refAmong (used ++ more) p.color) =
        paint.map fun p => Swatches.refAmong used p.color := by
    cases paint with
    | none => rfl
    | some p =>
      have hused : p.color ∈ used := h (List.mem_map_of_mem (hpaint (by simp)))
      rw [Option.map_some, Option.map_some, Swatches.refAmong_append hused]
  rw [ruleAmong, ruleAmong, hkept _ (List.subset_append_left _ _), hkept _ (List.subset_append_right _ _)]

namespace Swatches

theorem rule_after (used : List Color) (item : StyleItem ς) :
    (after used).rule item = (item.ruleAmong (used ++ item.colors), after (used ++ item.colors)) := by
  have hcolors : item.colors = item.foreground.toList.map Paint.color ++ item.background.toList.map Paint.color :=
    List.map_append
  rw [rule, add?_after]
  simp only [add?_after, List.append_assoc, hcolors, StyleItem.ruleAmong]
  -- The background's colour, if it is added, leaves the foreground's where it is.
  cases item.foreground with
  | none => rfl
  | some p =>
    have hused : p.color ∈ used ++ [p.color] := by simp
    have hkept := refAmong_append hused (item.background.toList.map Paint.color)
    rw [List.append_assoc, List.singleton_append] at hkept
    simp [hkept]

/-- The rules of entries refer to the table of all colours that they use. -/
theorem rules_after (used : List Color) (items : List (StyleItem ς)) :
    (after used).rules items =
      (items.map fun item => (item.selector, item.ruleAmong (used ++ items.flatMap StyleItem.colors)),
        after (used ++ items.flatMap StyleItem.colors)) := by
  induction items generalizing used with
  | nil => simp [rules]
  | cons item items ih =>
    have hfirst : item.ruleAmong (used ++ item.colors) =
        item.ruleAmong (used ++ item.colors ++ items.flatMap StyleItem.colors) :=
      (StyleItem.ruleAmong_append (List.subset_append_right _ _) _).symm
    rw [rules, rule_after]
    simp only [ih, List.flatMap_cons, List.map_cons, hfirst, List.append_assoc]

/-- A place among colours fits into a reference. -/
theorem index_refAmong (used : List Color) (c : Color) :
    (refAmong used c).index.toNat = used.eraseDups.idxOf c := by
  have hle : used.eraseDups.idxOf c ≤ used.eraseDups.length := List.idxOf_le_length
  have hlength : used.eraseDups.length ≤ 2 ^ 24 := Color.length_le_of_nodup (nodup_eraseDups used)
  exact UInt32.toNat_ofNat_of_lt' (by rw [UInt32.size]; omega)

/-- The text at the place of a colour is the colour's. -/
theorem texts_refAmong (h : c ∈ used) : (after used).texts[(refAmong used c).index.toNat]? = some c.toHex := by
  rw [index_refAmong, after, List.getElem?_map, List.getElem?_idxOf (List.mem_eraseDups.2 h)]
  rfl

end Swatches

namespace Sheet

/-- The colours that a stylesheet uses, in order. -/
def colors (sheet : Sheet ς) : List Color := sheet.items.flatMap StyleItem.colors

/-- **A stylesheet made ready** has the rules of its entries, over a table of all its colours. -/
theorem flatten_eq (sheet : Sheet ς) :
    sheet.flatten =
      { rules := sheet.items.map fun item => (item.selector, item.ruleAmong sheet.colors)
        texts := (Swatches.after sheet.colors).texts } := by
  have hrules := Swatches.rules_after [] sheet.items
  rw [List.nil_append] at hrules
  show FlatSheet.mk ((Swatches.after []).rules sheet.items).1 ((Swatches.after []).rules sheet.items).2.texts = _
  rw [hrules]
  rfl

theorem colorText_theme [Selects ς π] [Std.LinearOrderPackage π] (sheet : Sheet ς) (name : String) (ref : ColorRef) :
    (sheet.theme name).colorText ref = (Swatches.after sheet.colors).texts[ref.index.toNat]? := by
  show sheet.flatten.texts[ref.index.toNat]? = _
  rw [flatten_eq]

/-- The theme of a stylesheet finds every colour that an entry uses. -/
theorem colorOf_refAmong [Selects ς π] [Std.LinearOrderPackage π] {sheet : Sheet ς} {c : Color} (h : c ∈ sheet.colors) (name : String) :
    (sheet.theme name).colorOf (Swatches.refAmong sheet.colors c) = .ok c := by
  rw [Theme.colorOf, colorText_theme, Swatches.texts_refAmong h]
  exact Color.ofHex_toHex c

end Sheet

end Highlight
