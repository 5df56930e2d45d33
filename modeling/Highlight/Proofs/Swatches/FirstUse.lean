/-
Swatches in order of first use. A stylesheet uses colours in the order of its
entries, the foreground of each before its background (`Stylesheet.uses`). The
references that its rules get for them count up from zero, with a new number
for each new colour (`Swatches.eraseDups_map_index`), and the table of texts and
the table of references lead back to each other all the time
(`Swatches.indexed_after`). `Stylesheet.flatten_by_first_use` says how the rules,
the references and the texts of a stylesheet made ready hang together.
-/
import Highlight.Proofs.Swatches
import Mathlib.Data.List.Forall2

namespace Highlight

namespace Swatches

variable {used : List Color} {c d : Color} {ref : ColorRef} {text : String}

theorem length_texts_after (used : List Color) : (after used).texts.length = used.eraseDups.length := List.length_map _

theorem index_refAmong_lt (h : c ∈ used) : (refAmong used c).index.toNat < used.eraseDups.length := by
  rw [index_refAmong]
  exact List.idxOf_lt_length_of_mem (List.mem_eraseDups.2 h)

/-- Two colours have one reference only if they are the same. -/
theorem refAmong_inj (hc : c ∈ used) : refAmong used c = refAmong used d ↔ c = d := by
  refine ⟨fun h => ?_, fun h => h ▸ rfl⟩
  have hplaces := congrArg (fun ref : ColorRef => ref.index.toNat) h
  simp only [index_refAmong] at hplaces
  exact (List.idxOf_inj (List.mem_eraseDups.2 hc)).1 hplaces

/-- The text at a place is that of the colour which is referred to by it. -/
theorem getElem?_texts_eq_some_iff :
    (after used).texts[ref.index.toNat]? = some text ↔ ∃ c ∈ used, c.toHex = text ∧ refAmong used c = ref := by
  constructor
  · intro h
    rw [after, List.getElem?_map, Option.map_eq_some_iff] at h
    obtain ⟨c, hc, rfl⟩ := h
    obtain ⟨hlt, rfl⟩ := List.getElem?_eq_some_iff.1 hc
    refine ⟨_, List.mem_eraseDups.1 (List.getElem_mem hlt), rfl, ?_⟩
    rw [refAmong, (nodup_eraseDups used).idxOf_getElem, UInt32.ofNat_toNat]
  · rintro ⟨c, hc, rfl, rfl⟩
    exact texts_refAmong hc

/-- **References are numbers in order of first use**: those of some colours, each counted where it comes first, are the
numbers from zero up to that of the different colours. -/
theorem eraseDups_map_index (used : List Color) :
    (used.map fun c => (refAmong used c).index.toNat).eraseDups = List.range used.eraseDups.length := by
  induction used using List.reverseRecOn with
  | nil => rfl
  | append_singleton used c ih =>
    have hkept : (used.map fun d => (refAmong (used ++ [c]) d).index.toNat) =
        used.map fun d => (refAmong used d).index.toNat :=
      List.map_congr_left fun d hd => by rw [refAmong_append hd]
    rw [List.map_append, hkept, List.map_singleton, eraseDups_append_singleton, ih, eraseDups_append_singleton]
    by_cases h : c ∈ used
    · have hold : (refAmong (used ++ [c]) c).index.toNat ∈ used.map fun d => (refAmong used d).index.toNat := by
        rw [refAmong_append h]
        exact List.mem_map_of_mem h
      rw [if_pos hold, if_pos h, List.append_nil, List.append_nil]
    · have hplace : (refAmong (used ++ [c]) c).index.toNat = used.eraseDups.length := by
        rw [index_refAmong, idxOf_eraseDups_append_singleton h]
      have hnew : used.eraseDups.length ∉ used.map fun d => (refAmong used d).index.toNat := by
        rw [List.mem_map]
        rintro ⟨d, hd, heq⟩
        exact absurd heq (Nat.ne_of_lt (index_refAmong_lt hd))
      rw [hplace, if_neg hnew, if_neg h, List.length_append, List.length_singleton, List.range_succ]

/-- The two tables of some swatches lead back to each other, and there is a reference left for a new colour. -/
structure Indexed (s : Swatches) : Prop where
  nodup : s.texts.Nodup
  lookup_eq_some_iff : ∀ text ref, s.refs.lookup text = some ref ↔ s.texts[ref.index.toNat]? = some text
  length_le : s.texts.length ≤ 2 ^ 24
  /-- The number of texts is not cut off as a reference. -/
  toNat_length : (UInt32.ofNat s.texts.length).toNat = s.texts.length

theorem mem_refs_after : (text, ref) ∈ (after used).refs ↔ ∃ c ∈ used, c.toHex = text ∧ refAmong used c = ref := by
  simp only [after, List.mem_map, List.mem_reverse, List.mem_eraseDups, Prod.mk.injEq]

/-- Whatever colours were added, the tables fit together. -/
theorem indexed_after (used : List Color) : (after used).Indexed := by
  have hlength : used.eraseDups.length ≤ 2 ^ 24 := Color.length_le_of_nodup (nodup_eraseDups used)
  rw [← length_texts_after] at hlength
  refine ⟨?_, fun text ref => ?_, hlength, ?_⟩
  · exact (nodup_eraseDups used).map fun _ _ => Color.toHex_inj.1
  · rw [getElem?_texts_eq_some_iff]
    constructor
    · exact fun h => mem_refs_after.1 (mem_of_lookup h)
    · rintro ⟨c, hc, rfl, rfl⟩
      rw [after, lookup_map_toHex, if_pos (List.mem_reverse.2 (List.mem_eraseDups.2 hc))]
  · exact UInt32.toNat_ofNat_of_lt' (by rw [UInt32.size]; omega)

/-- The swatches that entries leave are those of their colours. -/
theorem rules_snd (items : List (StyleItem ς)) : (rules {} items).2 = after (items.flatMap StyleItem.colors) :=
  congrArg Prod.snd (rules_after [] items)

end Swatches

/-- The paints that an entry asks for, the foreground first. -/
def StyleItem.paints (item : StyleItem ς) : List Paint := item.foreground.toList ++ item.background.toList

namespace Stylesheet

/-- The paints that a stylesheet asks for, entry by entry. -/
def paints (sheet : Stylesheet) : List Paint := sheet.items.flatMap StyleItem.paints

/-- The uses of colours: each paint that an entry asks for, with the reference that its rule has for it. The foreground
of an entry stands before its background, and both before those of later entries. -/
def uses (sheet : Stylesheet) : List (Paint × ColorRef) :=
  (sheet.items.zip sheet.flatten.rules).flatMap fun (item, _, rule) =>
    item.foreground.toList.zip rule.foreground.toList ++ item.background.toList.zip rule.background.toList

variable {sheet : Stylesheet} {ref : ColorRef}

theorem map_color_paints (sheet : Stylesheet) : sheet.paints.map Paint.color = sheet.colors := List.map_flatMap

theorem zip_toList_map (paint : Option Paint) (f : Paint → ColorRef) :
    paint.toList.zip (paint.map f).toList = paint.toList.map fun p => (p, f p) := by
  cases paint with
  | none => rfl
  | some p => rfl

/-- Every paint that is asked for is used, with the reference of its colour. -/
theorem uses_eq (sheet : Stylesheet) :
    sheet.uses = sheet.paints.map fun paint => (paint, Swatches.refAmong sheet.colors paint.color) := by
  have hzip : sheet.items.zip sheet.flatten.rules =
      sheet.items.map fun item => (item, item.selector, item.ruleAmong sheet.colors) := by
    have hpairs := List.zip_map' (f := id) (g := fun item => (item.selector, item.ruleAmong sheet.colors))
      (l := sheet.items)
    rw [List.map_id] at hpairs
    rw [Sheet.flatten_eq]
    exact hpairs
  rw [uses, hzip, List.flatMap_map, paints, List.map_flatMap]
  simp only [StyleItem.ruleAmong, zip_toList_map, StyleItem.paints, List.map_append]

theorem mem_uses {paint : Paint} :
    (paint, ref) ∈ sheet.uses ↔ paint ∈ sheet.paints ∧ Swatches.refAmong sheet.colors paint.color = ref := by
  rw [uses_eq, List.mem_map]
  constructor
  · rintro ⟨_, hpaint, heq⟩
    obtain ⟨rfl, rfl⟩ := Prod.mk.inj heq
    exact ⟨hpaint, rfl⟩
  · rintro ⟨hpaint, rfl⟩
    exact ⟨paint, hpaint, rfl⟩

theorem color_mem_of_mem_uses {use : Paint × ColorRef} (h : use ∈ sheet.uses) : use.1.color ∈ sheet.colors :=
  map_color_paints sheet ▸ List.mem_map_of_mem (mem_uses.1 h).1

/-- Paints have the same reference if they have the same colour, whatever their opacity. -/
theorem ref_eq_iff {use use' : Paint × ColorRef} (h : use ∈ sheet.uses) (h' : use' ∈ sheet.uses) :
    use.2 = use'.2 ↔ use.1.color = use'.1.color := by
  rw [← (mem_uses.1 h).2, ← (mem_uses.1 h').2]
  exact Swatches.refAmong_inj (color_mem_of_mem_uses h)

/-- The theme has the text of a paint for each reference that is used for it, and no other texts. -/
theorem colorText_eq_some_iff {name text : String} :
    (sheet.theme name).colorText ref = some text ↔ ∃ paint, (paint, ref) ∈ sheet.uses ∧ paint.color.toHex = text := by
  rw [Sheet.colorText_theme, Swatches.getElem?_texts_eq_some_iff]
  constructor
  · rintro ⟨c, hc, rfl, href⟩
    rw [← map_color_paints, List.mem_map] at hc
    obtain ⟨paint, hpaint, rfl⟩ := hc
    exact ⟨paint, mem_uses.2 ⟨hpaint, href⟩, rfl⟩
  · rintro ⟨paint, huse, rfl⟩
    exact ⟨paint.color, color_mem_of_mem_uses huse, rfl, (mem_uses.1 huse).2⟩

/-- The text that the theme has for a reference is that of the first paint for which it is used. -/
theorem colorText_eq_find?_uses (sheet : Stylesheet) (name : String) (ref : ColorRef) :
    (sheet.theme name).colorText ref =
      (sheet.uses.find? fun use => use.2 = ref).map fun use => use.1.color.toHex := by
  cases hfirst : sheet.uses.find? fun use => use.2 = ref with
  | none =>
    rw [List.find?_eq_none] at hfirst
    refine Option.eq_none_iff_forall_ne_some.2 fun text htext => ?_
    obtain ⟨paint, huse, -⟩ := colorText_eq_some_iff.1 htext
    exact hfirst _ huse (decide_eq_true rfl)
  | some use =>
    have huse : use ∈ sheet.uses := List.mem_of_find?_eq_some hfirst
    have href : use.2 = ref := by simpa using List.find?_some hfirst
    exact colorText_eq_some_iff.2 ⟨use.1, href ▸ huse, rfl⟩

/-- Of the references that are used, each counted where it is used first, the first is zero and each next one is one
more, up to the number of texts. -/
theorem eraseDups_map_index_uses (sheet : Stylesheet) :
    (sheet.uses.map fun use => use.2.index.toNat).eraseDups = List.range sheet.flatten.texts.length := by
  have hrefs : (sheet.uses.map fun use => use.2.index.toNat) =
      sheet.colors.map fun c => (Swatches.refAmong sheet.colors c).index.toNat := by
    rw [uses_eq, List.map_map, ← map_color_paints, List.map_map]
    rfl
  rw [hrefs, Swatches.eraseDups_map_index, Sheet.flatten_eq, Swatches.length_texts_after]

/-- A rule has the selector of its entry, and sets what the entry sets. -/
theorem forall₂_rules_flatten (sheet : Stylesheet) :
    List.Forall₂ (fun item (entry : Selector × Rule) => entry.1 = item.selector ∧
      entry.2.foreground.isSome = item.foreground.isSome ∧ entry.2.background.isSome = item.background.isSome ∧
      entry.2.font = item.font.map SheetFont.toBits) sheet.items sheet.flatten.rules := by
  rw [Sheet.flatten_eq, List.forall₂_map_right_iff, List.forall₂_same]
  exact fun item _ => ⟨rfl, Option.isSome_map, Option.isSome_map, rfl⟩

/-- The references of rules lie within the texts. -/
theorem index_lt_of_mem_rules {entry : Selector × Rule} (hentry : entry ∈ sheet.flatten.rules)
    (href : entry.2.foreground = some ref ∨ entry.2.background = some ref) :
    ref.index.toNat < sheet.flatten.texts.length := by
  rw [Sheet.flatten_eq, List.mem_map] at hentry
  obtain ⟨item, hitem, rfl⟩ := hentry
  have hused : ∀ c ∈ item.colors, (Swatches.refAmong sheet.colors c).index.toNat < sheet.flatten.texts.length := by
    intro c hc
    rw [Sheet.flatten_eq, Swatches.length_texts_after]
    exact Swatches.index_refAmong_lt (List.mem_flatMap.2 ⟨item, hitem, hc⟩)
  rcases href with href | href
  · obtain ⟨paint, hpaint, rfl⟩ := Option.map_eq_some_iff.1 href
    exact hused _ (StyleItem.foreground_mem_colors hpaint)
  · obtain ⟨paint, hpaint, rfl⟩ := Option.map_eq_some_iff.1 href
    exact hused _ (StyleItem.background_mem_colors hpaint)

/-- The rule at the place of an entry is made with the swatches that the entries before it leave. -/
theorem getElem?_rules_flatten {before after : List (StyleItem Selector)} {item : StyleItem Selector}
    (h : sheet.items = before ++ item :: after) :
    sheet.flatten.rules[before.length]? = some (item.selector, ((Swatches.rules {} before).2.rule item).1) := by
  have hcolors : sheet.colors =
      before.flatMap StyleItem.colors ++ item.colors ++ after.flatMap StyleItem.colors := by
    rw [Sheet.colors, h, List.flatMap_append, List.flatMap_cons, List.append_assoc]
  have hitem : sheet.items[before.length]? = some item := by simp [h]
  -- The colours of later entries leave those of this one where they are.
  rw [Swatches.rules_snd, Swatches.rule_after, Sheet.flatten_eq, List.getElem?_map, hitem, Option.map_some, hcolors,
    StyleItem.ruleAmong_append (List.subset_append_right _ _)]

end Stylesheet

/-- **A stylesheet made ready** has one rule for each entry, with the selector of the entry and a reference where the
entry asks for a colour. All references of rules have texts, which differ from each other and are each a `#` with six
lower-case digits. Two colours have the same reference exactly if they agree in red, green and blue. References are
counted up in the order of first use; each leads to the text of the first colour that it is used for, and those from
the number of texts on lead to none. The rule of an entry is made with the swatches that the entries before it leave;
whenever a colour is added to them, their tables fit together and the number of texts fits into a reference. -/
theorem Stylesheet.flatten_by_first_use (sheet : Stylesheet) (name : String) :
    let rules := sheet.flatten.rules
    let texts := sheet.flatten.texts
    List.Forall₂ (fun item (entry : Selector × Rule) => entry.1 = item.selector ∧
      entry.2.foreground.isSome = item.foreground.isSome ∧ entry.2.background.isSome = item.background.isSome ∧
      entry.2.font = item.font.map SheetFont.toBits) sheet.items rules ∧
    (∀ entry ∈ rules, ∀ ref, entry.2.foreground = some ref ∨ entry.2.background = some ref →
      ref.index.toNat < texts.length) ∧
    (texts.Nodup ∧ ∀ text ∈ texts, ∃ digits, text.toList = '#' :: digits ∧ digits.length = 6 ∧
      ∀ d ∈ digits, d ∈ "0123456789abcdef".toList) ∧
    (∀ use ∈ sheet.uses, ∀ use' ∈ sheet.uses, use.2 = use'.2 ↔ use.1.color.red = use'.1.color.red ∧
      use.1.color.green = use'.1.color.green ∧ use.1.color.blue = use'.1.color.blue) ∧
    (sheet.uses.map fun use => use.2.index.toNat).eraseDups = List.range texts.length ∧
    (∀ ref, (sheet.theme name).colorText ref =
      (sheet.uses.find? fun use => use.2 = ref).map fun use => use.1.color.toHex) ∧
    (∀ ref, (sheet.theme name).colorText ref = none ↔ texts.length ≤ ref.index.toNat) ∧
    ∀ before item after, sheet.items = before ++ item :: after →
      let swatches := (Swatches.rules {} before).2
      rules[before.length]? = some (item.selector, (swatches.rule item).1) ∧
      swatches.Indexed ∧ (swatches.add? item.foreground).2.Indexed := by
  intro rules texts
  have htexts : texts = (Swatches.after sheet.colors).texts := congrArg FlatSheet.texts sheet.flatten_eq
  refine ⟨sheet.forall₂_rules_flatten, fun _ hentry _ => index_lt_of_mem_rules hentry, ⟨?_, fun text htext => ?_⟩,
    fun _ huse _ huse' => (ref_eq_iff huse huse').trans Color.eq_iff, sheet.eraseDups_map_index_uses,
    sheet.colorText_eq_find?_uses name, fun ref => List.getElem?_eq_none_iff,
    fun before item after hitems => ⟨getElem?_rules_flatten hitems, ?_⟩⟩
  · rw [htexts]
    exact (Swatches.indexed_after sheet.colors).nodup
  · rw [htexts, Swatches.after, List.mem_map] at htext
    obtain ⟨c, -, rfl⟩ := htext
    exact c.toList_toHex
  · rw [Swatches.rules_snd, Swatches.add?_after]
    exact ⟨Swatches.indexed_after _, Swatches.indexed_after _⟩

/-- A colour that comes again with another opacity has its reference already. -/
example :
    let sheet : Stylesheet :=
      ⟨[{ selector := ⟨[]⟩, background := some ⟨⟨1, 2, 255⟩, 255⟩ },
        { selector := ⟨[]⟩, foreground := some ⟨.black, 255⟩, background := some ⟨⟨1, 2, 255⟩, 0⟩ }]⟩
    sheet.flatten.texts = ["#0102ff", "#000000"] ∧ sheet.uses.map (fun use => use.2.index) = [0, 1, 0] := by
  decide

end Highlight
