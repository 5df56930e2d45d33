/-
Lists as records of what was done in turn: the elements up to the first that
satisfies a test (`throughFirst`), and the different ones among them. Lists of
pairs as tables (`lookup_filter_ne`, `lookup_of_mem`). Lists put together with
a separator (`mem_intercalate`), and taken apart at a boundary
(`takeWhile_append_of_head?`). What stands before what in a sorted list
(`pair_sublist_iff`).
-/
import Mathlib.Data.List.Induction

namespace Highlight

theorem eraseDups_append_singleton [BEq α] [LawfulBEq α] [DecidableEq α] (as : List α) (a : α) :
    (as ++ [a]).eraseDups = as.eraseDups ++ if a ∈ as then [] else [a] := by
  rw [List.eraseDups_append]
  by_cases ha : a ∈ as <;> simp [List.cons_removeAll, List.eraseDups_cons, ha]

theorem nodup_eraseDups [BEq α] [LawfulBEq α] [DecidableEq α] (as : List α) : as.eraseDups.Nodup := by
  induction as using List.reverseRecOn with
  | nil => exact List.nodup_nil
  | append_singleton as a ih =>
    rw [eraseDups_append_singleton]
    by_cases ha : a ∈ as
    · simpa [ha] using ih
    · rw [if_neg ha, List.nodup_append]
      refine ⟨ih, by simp, fun b hb c hc hbc => ha ?_⟩
      rw [← List.mem_singleton.1 hc, ← hbc]
      exact List.mem_eraseDups.1 hb

/-- A table from which a key was taken out has the other keys as before. -/
theorem lookup_filter_ne [DecidableEq κ] (entries : List (κ × α)) (key k : κ) :
    (entries.filter (·.1 ≠ key)).lookup k = if k = key then none else entries.lookup k := by
  induction entries with
  | nil => simp
  | cons entry entries ih =>
    obtain ⟨key', a⟩ := entry
    by_cases hkey : key' = key
    · subst hkey
      rw [List.filter_cons_of_neg (by simp), ih, List.lookup_cons]
      by_cases hk : k = key'
      · simp [hk]
      · simp [hk, beq_eq_false_iff_ne.2 hk]
    · rw [List.filter_cons_of_pos (by simpa using hkey), List.lookup_cons, List.lookup_cons, ih]
      by_cases hk : k = key'
      · simp [hk, hkey]
      · simp [beq_eq_false_iff_ne.2 hk]

/-- In a table without a second row for any key, a row is what its key leads to. -/
theorem lookup_of_mem [BEq κ] [LawfulBEq κ] {entries : List (κ × α)} {key : κ} {a : α}
    (hdistinct : (entries.map (·.1)).Nodup) (hmem : (key, a) ∈ entries) : entries.lookup key = some a := by
  obtain ⟨before, after, hentries⟩ := List.append_of_mem hmem
  refine List.lookup_eq_some_iff.2 ⟨before, after, hentries, fun entry hentry => ?_⟩
  rw [hentries, List.map_append, List.map_cons, List.nodup_append] at hdistinct
  have := hdistinct.2.2 entry.1 (List.mem_map_of_mem hentry) key List.mem_cons_self
  simpa using Ne.symm this

theorem mem_of_lookup [BEq κ] [LawfulBEq κ] {entries : List (κ × α)} {key : κ} {a : α}
    (h : entries.lookup key = some a) : (key, a) ∈ entries := by
  obtain ⟨before, after, rfl, -⟩ := List.lookup_eq_some_iff.1 h
  exact List.mem_append_right before List.mem_cons_self

/-- What is taken from the front ends where it is bound to. -/
theorem takeWhile_append_of_head? {p : α → Bool} {as bs : List α} (has : ∀ a ∈ as, p a = true)
    (hbs : ∀ b ∈ bs.head?, p b = false) : (as ++ bs).takeWhile p = as := by
  rw [List.takeWhile_append_of_pos has]
  cases bs with
  | nil => exact List.append_nil as
  | cons b bs => rw [List.takeWhile_cons_of_neg (by simp [hbs b rfl]), List.append_nil]

theorem dropWhile_append_of_head? {p : α → Bool} {as bs : List α} (has : ∀ a ∈ as, p a = true)
    (hbs : ∀ b ∈ bs.head?, p b = false) : (as ++ bs).dropWhile p = bs := by
  rw [List.dropWhile_append_of_pos has]
  cases bs with
  | nil => rfl
  | cons b bs => exact List.dropWhile_cons_of_neg (by simp [hbs b rfl])

theorem length_le_length_flatMap {f : α → List β} {as : List α} (h : ∀ a ∈ as, f a ≠ []) :
    as.length ≤ (as.flatMap f).length := by
  induction as with
  | nil => exact Nat.zero_le _
  | cons a as ih =>
    have hpos : 0 < (f a).length := List.length_pos_iff.2 (h a List.mem_cons_self)
    have hrest := ih fun a' ha' => h a' (List.mem_cons_of_mem _ ha')
    rw [List.flatMap_cons, List.length_append, List.length_cons]
    omega

theorem mem_intercalate {a : α} {between : List α} {pieces : List (List α)}
    (h : a ∈ between.intercalate pieces) : a ∈ between ∨ ∃ piece ∈ pieces, a ∈ piece := by
  induction pieces with
  | nil => simp at h
  | cons piece pieces ih =>
    cases pieces with
    | nil => exact .inr ⟨piece, List.mem_cons_self, by simpa using h⟩
    | cons next pieces =>
      rw [List.intercalate_cons_cons, List.append_assoc, List.mem_append, List.mem_append] at h
      rcases h with h | h | h
      · exact .inr ⟨piece, List.mem_cons_self, h⟩
      · exact .inl h
      · exact (ih h).imp_right fun ⟨other, hother, ha⟩ => ⟨other, List.mem_cons_of_mem _ hother, ha⟩

/-- In a list that is in a strict order, what stands before what is read off of the order. -/
theorem pair_sublist_iff {r : α → α → Prop} (hasymm : ∀ a b, r a b → ¬ r b a) {as : List α} (hsorted : as.Pairwise r)
    {a b : α} : [a, b].Sublist as ↔ a ∈ as ∧ b ∈ as ∧ r a b := by
  induction as with
  | nil => simp
  | cons first as ih =>
    rw [List.pairwise_cons] at hsorted
    obtain ⟨hfirst, hrest⟩ := hsorted
    rw [List.sublist_cons_iff, ih hrest]
    constructor
    · rintro (⟨ha, hb, hab⟩ | ⟨rest, heq, hrest⟩)
      · exact ⟨List.mem_cons_of_mem _ ha, List.mem_cons_of_mem _ hb, hab⟩
      · obtain ⟨rfl, rfl⟩ := List.cons.inj heq
        have hb : b ∈ as := List.singleton_sublist.1 hrest
        exact ⟨List.mem_cons_self, List.mem_cons_of_mem _ hb, hfirst b hb⟩
    · rintro ⟨ha, hb, hab⟩
      rw [List.mem_cons] at ha hb
      rcases hb with rfl | hb
      · -- Nothing stands before the first element.
        rcases ha with rfl | ha
        · exact absurd hab (hasymm _ _ hab)
        · exact absurd hab (hasymm _ _ (hfirst a ha))
      · rcases ha with rfl | ha
        · exact .inr ⟨[b], rfl, List.singleton_sublist.2 hb⟩
        · exact .inl ⟨ha, hb, hab⟩

/-- The elements up to the first one that satisfies `p`, this one included. -/
def throughFirst (p : α → Bool) : List α → List α
  | [] => []
  | a :: as => if p a then [a] else a :: throughFirst p as

theorem throughFirst_append_of_any {p : α → Bool} {as : List α} (h : as.any p = true) (bs : List α) :
    throughFirst p (as ++ bs) = throughFirst p as := by
  induction as with
  | nil => simp at h
  | cons a as ih =>
    rw [List.cons_append, throughFirst, throughFirst]
    split
    · rfl
    · rename_i ha
      rw [ih (by simpa [ha] using h)]

theorem throughFirst_append_of_not_any {p : α → Bool} {as : List α} (h : as.any p = false) (bs : List α) :
    throughFirst p (as ++ bs) = as ++ throughFirst p bs := by
  induction as with
  | nil => rfl
  | cons a as ih =>
    rw [List.any_cons, Bool.or_eq_false_iff] at h
    rw [List.cons_append, throughFirst, if_neg (by simp [h.1]), ih h.2, List.cons_append]

theorem throughFirst_of_not_any {p : α → Bool} {as : List α} (h : as.any p = false) : throughFirst p as = as := by
  have := throughFirst_append_of_not_any h []
  simpa [throughFirst] using this

theorem throughFirst_subset (p : α → Bool) (as : List α) : throughFirst p as ⊆ as := by
  induction as with
  | nil => exact List.Subset.refl _
  | cons a as ih =>
    rw [throughFirst]
    split
    · exact List.cons_subset_cons a (List.nil_subset as)
    · exact List.cons_subset_cons a ih

/-- What is done up to the first step that fails may be read off of the steps that are of one kind. -/
theorem filterMap_throughFirst {p : α → Bool} {q : β → Bool} {f : α → Option β} {as : List α}
    (h : ∀ a ∈ as, ∃ b, f a = some b ∧ p a = q b) :
    (throughFirst p as).filterMap f = throughFirst q (as.filterMap f) := by
  induction as with
  | nil => rfl
  | cons a as ih =>
    obtain ⟨b, hb, hpq⟩ := h a List.mem_cons_self
    have ih := ih fun a' ha' => h a' (List.mem_cons_of_mem _ ha')
    rw [throughFirst, List.filterMap_cons_some hb, throughFirst, ← hpq]
    split
    · rw [List.filterMap_cons_some hb, List.filterMap_nil]
    · rw [List.filterMap_cons_some hb, ih]

end Highlight
