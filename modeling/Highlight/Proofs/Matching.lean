/-
The entries of a stylesheet that match some scopes. The rules that match are
sorted, so the first that sets a colour is the strongest that does, and of
equally strong ones the latest: its paint is `Sheet.Chosen`. The union of font
bits does not depend on the order (`Sheet.fontFor`).

`Painter.Reachable.span_of_stylesheet` says what a painter makes of a token
under the theme of a stylesheet: the chosen paints and the union of font bits,
and never an error. Of powers it is used only that they are in a linear order,
so what selectors are and how well they fit is left open.
-/
import Highlight.Proofs.Style
import Highlight.Proofs.Swatches

namespace Highlight

variable {ς π : Type}

namespace Match

variable [Std.LinearOrderPackage π]

theorem before_iff {a b : Match π} :
    a.before b = true ↔ b.power < a.power ∨ a.power = b.power ∧ b.place ≤ a.place := by
  simp [before]

/-- The same by the order of powers alone. -/
theorem before_iff_le {a b : Match π} :
    a.before b = true ↔ b.power ≤ a.power ∧ (a.power ≤ b.power → b.place ≤ a.place) := by
  rw [before_iff]
  by_cases hab : a.power ≤ b.power
  · have heq : a.power = b.power ↔ b.power ≤ a.power := ⟨fun h => h ▸ Std.le_refl _, Std.le_antisymm hab⟩
    simp [hab, Std.not_lt.2 hab, heq]
  · have hlt : b.power < a.power := Std.not_le.1 hab
    simp [hab, hlt, Std.le_of_lt hlt]

theorem before_total (a b : Match π) : (a.before b || b.before a) = true := by
  rw [Bool.or_eq_true, before_iff_le, before_iff_le]
  by_cases hab : a.power ≤ b.power
  · by_cases hba : b.power ≤ a.power
    · simpa [hab, hba] using Nat.le_total b.place a.place
    · simp [hab, hba]
  · have hba : b.power ≤ a.power := Std.le_of_lt (Std.not_le.1 hab)
    simp [hab, hba]

theorem before_trans (a b c : Match π) (hab : a.before b = true) (hbc : b.before c = true) : a.before c = true := by
  rw [before_iff_le] at hab hbc ⊢
  refine ⟨Std.le_trans hbc.1 hab.1, fun hac => ?_⟩
  have hplace : b.place ≤ a.place := hab.2 (Std.le_trans hac hbc.1)
  have hplace' : c.place ≤ b.place := hbc.2 (Std.le_trans hab.1 hac)
  exact Nat.le_trans hplace' hplace

theorem place_eq_of_before {a b : Match π} (hab : a.before b = true) (hba : b.before a = true) : a.place = b.place := by
  rw [before_iff_le] at hab hba
  have hle : b.place ≤ a.place := hab.2 hba.1
  have hge : a.place ≤ b.place := hba.2 hab.1
  exact Nat.le_antisymm hge hle

/-- A sorted list of matches: each comes before those after it. -/
theorem pairwise_sorted (found : List (Match π)) : (found.mergeSort before).Pairwise fun a b => a.before b = true :=
  List.pairwise_mergeSort before_trans before_total found

/-- The first of the sorted matches that sets something comes before all others that set it. -/
theorem of_findSome?_sorted {found : List (Match π)} {get : Rule → Option ColorRef} {ref : ColorRef}
    (h : (found.mergeSort before).findSome? (fun m => get m.rule) = some ref) :
    ∃ first ∈ found, get first.rule = some ref ∧
      ∀ other ∈ found, get other.rule ≠ none → other = first ∨ first.before other = true := by
  obtain ⟨earlier, first, later, hsorted, hget, hearlier⟩ := List.findSome?_eq_some_iff.1 h
  have hmem (m : Match π) : m ∈ found ↔ m ∈ earlier ++ first :: later := by rw [← hsorted, List.mem_mergeSort]
  have hpairwise := pairwise_sorted found
  rw [hsorted, List.pairwise_append] at hpairwise
  refine ⟨first, (hmem first).2 (by simp), hget, fun other hother hsets => ?_⟩
  rcases List.mem_append.1 ((hmem other).1 hother) with hin | hin
  · exact absurd (hearlier other hin) hsets
  · rcases List.mem_cons.1 hin with rfl | hin
    · exact .inl rfl
    · exact .inr (List.rel_of_pairwise_cons hpairwise.2.1 hin)

end Match

namespace Sheet

variable [Selects ς π]

/-- The entry at this place matches with this power and sets this paint, as its foreground or as its background. -/
def Sets (sheet : Sheet ς) (stack : List Scope) (kind : StyleItem ς → Option Paint) (place : Nat) (power : π)
    (paint : Paint) : Prop :=
  ∃ item, sheet.items[place]? = some item ∧ Selects.power item.selector stack = some power ∧ kind item = some paint

/-- The paint that the strongest of the matching entries that set one asks for, of equally strong ones the latest; none
if no matching entry sets one. -/
def Chosen [Std.LinearOrderPackage π] (sheet : Sheet ς) (stack : List Scope) (kind : StyleItem ς → Option Paint) : Option Paint → Prop
  | some paint => ∃ place power, sheet.Sets stack kind place power paint ∧
      ∀ place' power' paint', sheet.Sets stack kind place' power' paint' →
        power' < power ∨ power' = power ∧ place' ≤ place
  | none => ∀ place power paint, ¬ sheet.Sets stack kind place power paint

/-- The union of the font bits of all entries that match. -/
def fontFor (sheet : Sheet ς) (stack : List Scope) : FontBits :=
  ((sheet.items.filter fun item => (Selects.power item.selector stack).isSome).filterMap fun item =>
    item.font.map SheetFont.toBits).foldl (· ||| ·) 0

variable {sheet : Sheet ς} {stack : List Scope}

/-- The rules that match are those of the entries that match, each at the place of its entry. -/
theorem mem_found {m : Match π} :
    m ∈ sheet.flatten.found stack ↔
      ∃ item, sheet.items[m.place]? = some item ∧ Selects.power item.selector stack = some m.power ∧
        item.ruleAmong sheet.colors = m.rule := by
  rw [flatten_eq, FlatSheet.found]
  obtain ⟨power, place, rule⟩ := m
  simp only [List.mem_filterMap, List.mem_zipIdx_iff_getElem?, List.getElem?_map]
  constructor
  · rintro ⟨⟨⟨selector, rule'⟩, place'⟩, hitem, hmatch⟩
    obtain ⟨item, hitem, hrule⟩ := Option.map_eq_some_iff.1 hitem
    obtain ⟨power', hpower, hm⟩ := Option.map_eq_some_iff.1 hmatch
    cases hrule
    cases hm
    exact ⟨item, hitem, hpower, rfl⟩
  · rintro ⟨item, hitem, hpower, rfl⟩
    exact ⟨((item.selector, item.ruleAmong sheet.colors), place), by simp [hitem], by simp [hpower]⟩

theorem filterMap_font_found (sheet : Sheet ς) (stack : List Scope) :
    ((sheet.flatten.found stack).map Match.rule).filterMap Rule.font =
      (sheet.items.filter fun item => (Selects.power item.selector stack).isSome).filterMap fun item =>
        item.font.map SheetFont.toBits := by
  rw [flatten_eq, FlatSheet.found, List.zipIdx_map, List.filterMap_map, List.filterMap_map, List.filterMap_filterMap,
    List.filterMap_filter]
  -- No place counts: the rows are read for their entries alone.
  conv_rhs => rw [← List.zipIdx_map_fst 0 sheet.items, List.filterMap_map]
  refine List.filterMap_congr fun ⟨item, place⟩ _ => ?_
  cases hpower : Selects.power item.selector stack <;> simp [hpower, StyleItem.ruleAmong]

variable [Std.LinearOrderPackage π]

/-- The rules are sorted, which does not change the union of their font bits. -/
theorem font_fold (sheet : Sheet ς) (names : List String) :
    (Style.fold (sheet.flatten.rulesFor names)).font = sheet.fontFor (FlatSheet.stackOf names) := by
  have hperm : (sheet.flatten.rulesFor names).Perm
      ((sheet.flatten.found (FlatSheet.stackOf names)).map Match.rule) :=
    (List.mergeSort_perm _ _).map Match.rule
  rw [Style.font_fold_perm hperm, Style.font_fold, filterMap_font_found, fontFor, FontBits.union]

variable {kind : StyleItem ς → Option Paint}

/-- The paint that is chosen decodes, as it stands in the table. -/
theorem Chosen.colorOf {paint : Paint} (h : sheet.Chosen stack kind (some paint))
    (hkind : ∀ item paint, kind item = some paint → paint.color ∈ item.colors) (name : String) :
    (sheet.theme name).colorOf (Swatches.refAmong sheet.colors paint.color) = .ok paint.color := by
  obtain ⟨place, power, ⟨item, hitem, -, hpaint⟩, -⟩ := h
  exact colorOf_refAmong (List.mem_flatMap.2 ⟨item, List.mem_of_getElem? hitem, hkind item paint hpaint⟩) name

/-- What is chosen is determined by the stylesheet and the scopes. -/
theorem Chosen.unique {paint paint' : Option Paint} (h : sheet.Chosen stack kind paint)
    (h' : sheet.Chosen stack kind paint') : paint = paint' := by
  cases paint with
  | none =>
    cases paint' with
    | none => rfl
    | some _ =>
      obtain ⟨place, power, hsets, -⟩ := h'
      exact absurd hsets (h place power _)
  | some _ =>
    obtain ⟨place, power, hsets, hbest⟩ := h
    cases paint' with
    | none => exact absurd hsets (h' place power _)
    | some _ =>
      obtain ⟨place', power', hsets', hbest'⟩ := h'
      have hbefore : Match.before ⟨power, place, {}⟩ ⟨power', place', {}⟩ = true :=
        Match.before_iff.2 ((hbest _ _ _ hsets').imp_right fun h => ⟨h.1.symm, h.2⟩)
      have hbefore' : Match.before ⟨power', place', {}⟩ ⟨power, place, {}⟩ = true :=
        Match.before_iff.2 ((hbest' _ _ _ hsets).imp_right fun h => ⟨h.1.symm, h.2⟩)
      obtain rfl : place = place' := Match.place_eq_of_before hbefore hbefore'
      obtain ⟨item, hitem, -, hpaint⟩ := hsets
      obtain ⟨item', hitem', -, hpaint'⟩ := hsets'
      obtain rfl : item = item' := Option.some.inj (hitem.symm.trans hitem')
      exact hpaint.symm.trans hpaint'

/-- **The first of the rules that sets a colour has the paint that is chosen**, be it the foreground or the
background: what an entry asks for (`kind`) its rule has in that place (`get`). -/
theorem exists_chosen (sheet : Sheet ς) (kind : StyleItem ς → Option Paint) (get : Rule → Option ColorRef)
    (hget : ∀ item, get (item.ruleAmong sheet.colors) =
      (kind item).map fun paint => Swatches.refAmong sheet.colors paint.color) (names : List String) :
    ∃ chosen, sheet.Chosen (FlatSheet.stackOf names) kind chosen ∧
      (sheet.flatten.rulesFor names).findSome? get =
        chosen.map fun paint => Swatches.refAmong sheet.colors paint.color := by
  generalize hstack : FlatSheet.stackOf names = stack
  rw [FlatSheet.rulesFor, hstack, List.findSome?_map]
  -- An entry that asks for a paint has a rule among those found, which sets it.
  have hfound {place : Nat} {power : π} {paint : Paint} (h : sheet.Sets stack kind place power paint) :
      ∃ m ∈ sheet.flatten.found stack, m.place = place ∧ m.power = power ∧ get m.rule ≠ none := by
    obtain ⟨item, hitem, hpower, hpaint⟩ := h
    refine ⟨⟨power, place, item.ruleAmong sheet.colors⟩, mem_found.2 ⟨item, hitem, hpower, rfl⟩, rfl, rfl, ?_⟩
    simp [hget, hpaint]
  cases hfirst : ((sheet.flatten.found stack).mergeSort Match.before).findSome? (get ∘ Match.rule) with
  | none =>
    refine ⟨none, fun place power paint hsets => ?_, rfl⟩
    obtain ⟨m, hm, -, -, hset⟩ := hfound hsets
    exact hset (List.findSome?_eq_none_iff.1 hfirst m (List.mem_mergeSort.2 hm))
  | some ref =>
    obtain ⟨first, hmem, href, hbest⟩ := Match.of_findSome?_sorted hfirst
    obtain ⟨item, hitem, hpower, hrule⟩ := mem_found.1 hmem
    rw [← hrule, hget] at href
    obtain ⟨paint, hpaint, hrefAmong⟩ := Option.map_eq_some_iff.1 href
    refine ⟨some paint, ⟨first.place, first.power, ⟨item, hitem, hpower, hpaint⟩, ?_⟩, by rw [Option.map_some, hrefAmong]⟩
    intro place power paint' hsets
    obtain ⟨other, hother, rfl, rfl, hset⟩ := hfound hsets
    rcases hbest other hother hset with rfl | hbefore
    · exact .inr ⟨rfl, Nat.le_refl _⟩
    · exact (Match.before_iff.1 hbefore).imp_right fun h => ⟨h.1.symm, h.2⟩

end Sheet

/-- **A token under the theme of a stylesheet** becomes a span, whatever its painter has painted before. Each of its
colours is that of the strongest matching entry that sets it, the latest of equally strong ones, and its emphasis
that of the font bits of all matching entries together. No colour of a stylesheet fails to decode. What selectors
are, and how their powers come about, does not matter. -/
theorem Painter.Reachable.span_of_stylesheet [Selects ς π] [Std.LinearOrderPackage π] {p : Painter} {sheet : Sheet ς} {name : String}
    {appearance : Appearance} (hp : p.Reachable (sheet.theme name) appearance) (line : String) (token : Token) :
    ∃ foreground background,
      sheet.Chosen (FlatSheet.stackOf token.scopes) StyleItem.foreground foreground ∧
      sheet.Chosen (FlatSheet.stackOf token.scopes) StyleItem.background background ∧
      (p.span line token).1 = .ok ((Text.Bytes.clamp line token.start token.stop).map fun range =>
        { text := Text.Bytes.slice line range
          foreground := foreground.elim appearance.foreground Paint.color
          background := background.map Paint.color
          emphasis := .ofBits (sheet.fontFor (FlatSheet.stackOf token.scopes)) }) := by
  obtain ⟨foreground, hchosen, hforeground⟩ :=
    sheet.exists_chosen StyleItem.foreground Rule.foreground (fun _ => rfl) token.scopes
  obtain ⟨background, hchosen', hbackground⟩ :=
    sheet.exists_chosen StyleItem.background Rule.background (fun _ => rfl) token.scopes
  refine ⟨foreground, background, hchosen, hchosen', ?_⟩
  rw [hp.span_eq, Theme.spanOf]
  cases Text.Bytes.clamp line token.start token.stop with
  | none => rfl
  | some range =>
    have hfg : (sheet.theme name).foregroundOf appearance ((sheet.theme name).styleOf token.scopes) =
        .ok (foreground.elim appearance.foreground Paint.color) := by
      rw [Theme.foregroundOf, show ((sheet.theme name).styleOf token.scopes).foreground = _ from hforeground]
      cases foreground with
      | none => rfl
      | some paint => exact hchosen.colorOf (fun _ _ => StyleItem.foreground_mem_colors) name
    have hbg : ((sheet.theme name).styleOf token.scopes).background.mapM (sheet.theme name).colorOf =
        .ok (background.map Paint.color) := by
      rw [show ((sheet.theme name).styleOf token.scopes).background = _ from hbackground]
      cases background with
      | none => rfl
      | some paint =>
        have hcolor := hchosen'.colorOf (fun _ _ => StyleItem.background_mem_colors) name
        rw [Option.map_some, Option.mapM_some, hcolor]
        rfl
    have hfont : ((sheet.theme name).styleOf token.scopes).font = sheet.fontFor (FlatSheet.stackOf token.scopes) :=
      sheet.font_fold token.scopes
    simp only [hfg, hbg, hfont, bind_ok]
    rfl

/-- Two entries of one power that ask for a foreground, and a weaker one that alone asks for a background. -/
def Stylesheet.rivals : Stylesheet where
  items :=
    [{ selector := ⟨[⟨[⟨["source"]⟩], []⟩]⟩, foreground := some ⟨⟨1, 2, 3⟩, 255⟩, background := some ⟨.black, 128⟩ },
      { selector := ⟨[⟨[⟨["keyword"]⟩], []⟩]⟩, foreground := some ⟨.black, 255⟩, font := some ⟨1⟩ },
      { selector := ⟨[⟨[⟨["keyword"]⟩], []⟩]⟩, foreground := some ⟨⟨4, 5, 6⟩, 0⟩ }]

theorem Stylesheet.chosen_rivals :
    rivals.Chosen [⟨["source", "c"]⟩, ⟨["keyword", "if"]⟩] StyleItem.foreground (some ⟨⟨4, 5, 6⟩, 0⟩) ∧
    rivals.Chosen [⟨["source", "c"]⟩, ⟨["keyword", "if"]⟩] StyleItem.background (some ⟨.black, 128⟩) := by
  have hsource : Selector.power ⟨[⟨[⟨["source"]⟩], []⟩]⟩ [⟨["source", "c"]⟩, ⟨["keyword", "if"]⟩] = some (.finite 1) := by
    decide +kernel
  have hkeyword : Selector.power ⟨[⟨[⟨["keyword"]⟩], []⟩]⟩ [⟨["source", "c"]⟩, ⟨["keyword", "if"]⟩] = some (.finite 8) := by
    decide +kernel
  constructor
  · refine ⟨2, .finite 8, ⟨_, rfl, hkeyword, rfl⟩, ?_⟩
    rintro (_ | _ | _ | place) power paint ⟨item, hitem, hpower, -⟩
    all_goals cases hitem
    · cases hsource.symm.trans hpower
      exact .inl (by decide)
    · cases hkeyword.symm.trans hpower
      exact .inr ⟨rfl, by decide⟩
    · cases hkeyword.symm.trans hpower
      exact .inr ⟨rfl, by decide⟩
  · refine ⟨0, .finite 1, ⟨_, rfl, hsource, rfl⟩, ?_⟩
    rintro (_ | _ | _ | place) power paint ⟨item, hitem, hpower, hpaint⟩
    all_goals cases hitem
    · cases hsource.symm.trans hpower
      exact .inr ⟨rfl, Nat.le_refl _⟩
    · cases hpaint
    · cases hpaint

/-- The later of the two gives the foreground, the earlier one still makes it bold, and the weaker one gives the
background. The painter has painted a line before. -/
theorem Painter.Reachable.span_of_rivals :
    let used := (Painter.line .collect "x" [⟨0, 1, ["source.c"]⟩] ⟨Stylesheet.rivals.theme "rivals", .dark, [], []⟩ #[]).2.1
    (used.span "if x" ⟨0, 2, ["source.c", "keyword.if"]⟩).1 =
      .ok (some ⟨"if", ⟨4, 5, 6⟩, some .black, { bold := true }⟩) := by
  intro used
  have hreach : used.Reachable (Stylesheet.rivals.theme "rivals") .dark := .line _ _ _ _ .new
  obtain ⟨foreground, background, hchosen, hchosen', hspan⟩ :=
    span_of_stylesheet hreach "if x" ⟨0, 2, ["source.c", "keyword.if"]⟩
  obtain rfl := hchosen.unique Stylesheet.chosen_rivals.1
  obtain rfl := hchosen'.unique Stylesheet.chosen_rivals.2
  have hclamp : Text.Bytes.clamp "if x" 0 2 = some ⟨0, 2⟩ := by decide +kernel
  rw [hclamp] at hspan
  exact hspan

end Highlight
