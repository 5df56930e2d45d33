/-
The order in which the rules for some scope names come. The rules found have
different places (`FlatSheet.nodup_places_found`), so once sorted they are in a
strict order (`FlatSheet.pairwise_outranks`), which with the entries that match
determines the whole list (`Sheet.Ranks.unique`).
`Stylesheet.rulesFor_ranked` says what list the names of a token lead to.
-/
import Highlight.Proofs.Matching

namespace Highlight

variable {ς π : Type}

namespace Match

variable [Std.LinearOrderPackage π]

/-- The first of two matches is the stronger one, or the later one if they are equally strong. -/
def Outranks (a b : Match π) : Prop := b.power < a.power ∨ a.power = b.power ∧ b.place < a.place

theorem before_of_outranks {a b : Match π} (h : a.Outranks b) : a.before b = true :=
  before_iff.2 (h.imp_right fun h => ⟨h.1, Nat.le_of_lt h.2⟩)

theorem outranks_of_before {a b : Match π} (h : a.before b = true) (hplace : a.place ≠ b.place) : a.Outranks b :=
  (before_iff.1 h).imp_right fun h => ⟨h.1, Nat.lt_of_le_of_ne h.2 (Ne.symm hplace)⟩

theorem outranks_asymm (a b : Match π) (h : a.Outranks b) : ¬ b.Outranks a := by
  intro h'
  have hplace : a.place = b.place := place_eq_of_before (before_of_outranks h) (before_of_outranks h')
  have hle : a.power ≤ b.power := (before_iff_le.1 (before_of_outranks h')).1
  rcases h with hlt | ⟨-, hlt⟩
  · exact Std.not_le.2 hlt hle
  · omega

end Match

namespace FlatSheet

variable [Selects ς π]

/-- No two of the rules found are at one place. -/
theorem nodup_places_found (sheet : FlatSheet ς) (stack : List Scope) : ((sheet.found stack).map Match.place).Nodup := by
  have hplaces : sheet.rules.zipIdx.Pairwise fun a b => a.2 ≠ b.2 := by
    apply List.pairwise_map.1
    rw [List.zipIdx_map_snd]
    exact List.nodup_range'
  rw [List.nodup_iff_pairwise_ne, List.pairwise_map, found]
  refine hplaces.filterMap _ fun a b hne m hm m' hm' => ?_
  obtain ⟨power, -, rfl⟩ := Option.map_eq_some_iff.1 hm
  obtain ⟨power', -, rfl⟩ := Option.map_eq_some_iff.1 hm'
  exact hne

theorem nodup_places_sorted [Std.LinearOrderPackage π] (sheet : FlatSheet ς) (stack : List Scope) :
    (((sheet.found stack).mergeSort Match.before).map Match.place).Nodup :=
  ((List.mergeSort_perm _ _).map Match.place).nodup_iff.2 (sheet.nodup_places_found stack)

/-- Sorted, each rule found outranks those after it. -/
theorem pairwise_outranks [Std.LinearOrderPackage π] (sheet : FlatSheet ς) (stack : List Scope) :
    ((sheet.found stack).mergeSort Match.before).Pairwise Match.Outranks := by
  have hplaces := sheet.nodup_places_sorted stack
  rw [List.nodup_iff_pairwise_ne, List.pairwise_map] at hplaces
  exact (Match.pairwise_sorted (sheet.found stack)).imp₂ (fun _ _ => Match.outranks_of_before) hplaces

end FlatSheet

namespace Sheet

variable [Selects ς π] [Std.LinearOrderPackage π]

/-- The rules of the entries whose selectors match the scopes, one for each such entry, the strongest first and of
equally strong ones the later first. -/
def Ranks (sheet : Sheet ς) (stack : List Scope) (rules : List Rule) : Prop :=
  ∃ ranked : List (Match π), rules = ranked.map Match.rule ∧ (ranked.map Match.place).Nodup ∧
    ranked.Pairwise Match.Outranks ∧
    ∀ m, m ∈ ranked ↔ ∃ item, sheet.items[m.place]? = some item ∧ Selects.power item.selector stack = some m.power ∧
      item.ruleAmong sheet.colors = m.rule

theorem ranks_rulesFor (sheet : Sheet ς) (name : String) (names : List String) :
    sheet.Ranks (FlatSheet.stackOf names) ((sheet.theme name).rulesFor names) := by
  refine ⟨(sheet.flatten.found (FlatSheet.stackOf names)).mergeSort Match.before, rfl,
    sheet.flatten.nodup_places_sorted _, sheet.flatten.pairwise_outranks _, fun m => ?_⟩
  rw [List.mem_mergeSort, mem_found]

/-- Some scopes have one list of rules only. -/
theorem Ranks.unique {sheet : Sheet ς} {stack : List Scope} {rules rules' : List Rule} (h : sheet.Ranks stack rules)
    (h' : sheet.Ranks stack rules') : rules = rules' := by
  obtain ⟨ranked, rfl, hplaces, hsorted, hmem⟩ := h
  obtain ⟨ranked', rfl, hplaces', hsorted', hmem'⟩ := h'
  have hperm : ranked.Perm ranked' :=
    (List.perm_ext_iff_of_nodup hplaces.of_map hplaces'.of_map).2 fun m => (hmem m).trans (hmem' m).symm
  rw [hperm.eq_of_pairwise (fun a b _ _ hab hba => absurd hba (Match.outranks_asymm a b hab)) hsorted hsorted']

end Sheet

/-- **The rules for some names** are those of the entries whose selectors match the scopes that the names stand for, one
for each such entry and nothing else. The rule of one entry stands before that of another if and only if its power is
greater, or the powers are equal and its entry is the later one. Names that stand for no scope are dropped. What
selectors are, and how their powers come about, does not matter. -/
theorem Stylesheet.rulesFor_ranked [Selects ς π] [Std.LinearOrderPackage π] (sheet : Sheet ς) (name : String)
    (names : List String) :
    let stack := names.filterMap fun name => (Scope.parse name).toOption
    ∃ ranked : List (Match π),
      (sheet.theme name).rulesFor names = ranked.map Match.rule ∧
      (ranked.map Match.place).Nodup ∧
      (∀ m, m ∈ ranked ↔ ∃ item, sheet.items[m.place]? = some item ∧ Selects.power item.selector stack = some m.power ∧
        item.ruleAmong sheet.colors = m.rule) ∧
      ∀ a b, [a, b].Sublist ranked ↔
        a ∈ ranked ∧ b ∈ ranked ∧ (b.power < a.power ∨ a.power = b.power ∧ b.place < a.place) := by
  intro stack
  refine ⟨(sheet.flatten.found stack).mergeSort Match.before, rfl, sheet.flatten.nodup_places_sorted stack, fun m => ?_,
    fun a b => pair_sublist_iff Match.outranks_asymm (sheet.flatten.pairwise_outranks stack)⟩
  rw [List.mem_mergeSort, Sheet.mem_found]

end Highlight
