/-
Calls on a cache at the same time come to what they come to one after the other
(`resolve_interleaved`), if the backend answers by the name alone and no load
panics, in whatever order they take their steps. `Interleaved` puts together
what they keep true, step by step (`Interleaved.step`).
-/
import Mathlib.Data.List.Basic
import Highlight.Proofs.Cache.Faithful
import Highlight.Proofs.Cache.Progress
import Highlight.Proofs.Reconstruction

namespace Highlight

/-- Loads one theme, by its name, and one grammar under every name. -/
def Backend.only (theme : Theme) (grammar : Grammar σ) : Backend Unit σ where
  loadTheme name s := (if name = theme.name then .ok theme else .error (.error (.unknownTheme name)), s)
  loadGrammar _ s := (.ok (some grammar), s)

theorem Backend.stable_only (theme : Theme) (grammar : Grammar σ) : (Backend.only theme grammar).Stable :=
  ⟨fun _ _ _ => rfl, fun _ _ _ => rfl⟩

theorem Backend.calm_only (theme : Theme) (grammar : Grammar σ) : (Backend.only theme grammar).Calm := by
  refine ⟨fun name s => ?_, fun _ _ => by simp [only]⟩
  unfold only
  dsimp only
  split <;> simp

namespace Cache

namespace Contention

/-- What calls for these keys keep true of a cache, which was empty before. -/
structure Interleaved (backend : Backend β σ) (fallback : String) (state : β) (keys : List Key)
    (m : Contention β σ) : Prop where
  sound : m.Sound
  listed : m.Listed keys
  faithful : m.Faithful backend fallback state
  attended : m.Attended
  loyal (key : Key) : backend.Resolves fallback key state → m.Loyal key
  logged : m.Logged backend fallback state

variable {backend : Backend β σ} {fallback : String} {state : β} {keys : List Key} {m : Contention β σ}
  {n : Nat} {key : Key} {entry : Entry σ}

namespace Interleaved

theorem start (backend : Backend β σ) (fallback : String) (state : β) (keys : List Key) :
    (start ({ fallback } : Cache σ) keys { state }).Interleaved backend fallback state keys where
  sound := .start fallback keys { state }
  listed := by
    refine ⟨?_, fun key n hlookup => (by cases hlookup), List.nodup_nil⟩
    rw [Contention.start, List.map_map]
    exact List.map_id keys
  faithful := by
    refine ⟨rfl, fun key n entry _ hentry => (by cases hentry), fun i key stage hi => ?_⟩
    obtain ⟨-, rfl⟩ := callers_start hi
    trivial
  attended _ _ hlookup := by cases hlookup
  loyal key _ := .start fallback keys { state } key
  logged := ⟨rfl, fun _ _ => rfl⟩

/-- **A step keeps all this true**, whichever call makes it. -/
theorem step (h : m.Interleaved backend fallback state keys) (hstable : backend.Stable) (hcalm : backend.Calm) (i : Nat) :
    (m.step backend i).Interleaved backend fallback state keys := by
  have hmove := h.sound.move backend i
  have hfaithful := h.faithful.move h.sound hstable hmove
  exact {
    sound := h.sound.step backend i
    listed := h.listed.move hmove
    faithful := hfaithful
    attended := h.attended.move h.sound hmove (hfaithful.ne_panic hcalm i)
    loyal := fun key hkey => (h.loyal key hkey).move hmove (h.faithful.unfailed hkey)
    logged := h.logged.move h.sound h.faithful hstable h.loyal hmove }

theorem run (h : m.Interleaved backend fallback state keys) (hstable : backend.Stable) (hcalm : backend.Calm)
    (schedule : List Nat) : (m.run backend schedule).Interleaved backend fallback state keys := by
  induction schedule generalizing m with
  | nil => exact h
  | cons i schedule ih => exact ih (h.step hstable hcalm i)

/-! ## The cache that is left behind -/

theorem exists_cell (h : m.Interleaved backend fallback state keys) (hlookup : m.table.lookup key = some n) :
    ∃ cell, m.cells[n]? = some cell :=
  ⟨_, List.getElem?_eq_getElem (h.sound.valid key n (.inl hlookup))⟩

theorem map_fst_cache (h : m.Interleaved backend fallback state keys) :
    m.cache.slots.map (·.1) = m.table.map (·.1) := by
  rw [Contention.cache, List.map_filterMap, List.filterMap_eq_map_iff_forall_eq_some]
  rintro ⟨key, n⟩ hrow
  obtain ⟨cell, hat⟩ := h.exists_cell (lookup_of_mem h.listed.distinct hrow)
  dsimp only
  rw [hat]
  rfl

theorem distinct_cache (h : m.Interleaved backend fallback state keys) : m.cache.Distinct := by
  rw [Distinct, h.map_fst_cache]
  exact h.listed.distinct

theorem mem_slots_cache {slot : Slot σ} (hmem : (key, slot) ∈ m.cache.slots) :
    ∃ n, (key, n) ∈ m.table ∧ m.stored? n = slot.entry := by
  rw [Contention.cache, List.mem_filterMap] at hmem
  obtain ⟨⟨k, n⟩, hrow, hslot⟩ := hmem
  obtain ⟨cell, hat, heq⟩ := Option.map_eq_some_iff.1 hslot
  cases heq
  exact ⟨n, hrow, stored?_of_getElem? hat⟩

theorem get?_cache (h : m.Interleaved backend fallback state keys) (hcurrent : m.current? key = some entry) :
    m.cache.get? key = some entry := by
  obtain ⟨n, hlookup, hentry⟩ := Option.bind_eq_some_iff.1 hcurrent
  obtain ⟨cell, hat⟩ := h.exists_cell hlookup
  have hmem : (key, cell.slot) ∈ m.cache.slots := by
    rw [Contention.cache, List.mem_filterMap]
    exact ⟨(key, n), mem_of_lookup hlookup, Option.map_eq_some_iff.2 ⟨cell, hat, rfl⟩⟩
  rw [h.distinct_cache.get?_of_mem hmem, ← stored?_of_getElem? hat, hentry]

/-! ## When all calls have returned -/

/-- No cell of the table is left empty. -/
theorem filled_of_finished (h : m.Interleaved backend fallback state keys) (hfinished : m.Finished)
    (hlookup : m.table.lookup key = some n) : ∃ entry, m.stored? n = some entry := by
  cases hentry : m.stored? n with
  | some entry => exact ⟨entry, rfl⟩
  | none =>
    obtain ⟨i, stage, hi, hcell⟩ := h.attended key n hlookup hentry
    have hreturned := hfinished _ (List.mem_of_getElem? hi)
    cases stage with
    | ready | returned => cases hcell
    | waiting | holding | cleaning => cases hreturned

/-- A pair that was asked for, and that can be had, is in the table. -/
theorem current?_of_finished (h : m.Interleaved backend fallback state keys) (hfinished : m.Finished)
    (hmem : key ∈ keys) (hkey : backend.Resolves fallback key state) : ∃ entry, m.current? key = some entry := by
  rw [← h.listed.keys_eq] at hmem
  obtain ⟨⟨_, stage⟩, hcaller, rfl⟩ := List.mem_map.1 hmem
  obtain ⟨i, hi⟩ := List.getElem?_of_mem hcaller
  have hreturned := hfinished _ hcaller
  have htold := h.faithful.told i _ stage hi
  obtain ⟨pair, hpair⟩ := hkey
  rw [hpair] at htold
  cases stage with
  | ready | waiting | holding | cleaning => cases hreturned
  | returned answer =>
    cases answer with
    | error e => cases htold
    | ok entry => exact ⟨entry, (h.loyal _ ⟨pair, hpair⟩).answer i entry hi⟩

theorem mem_cache_iff (h : m.Interleaved backend fallback state keys) (hfinished : m.Finished) (key : Key) :
    key ∈ m.cache.slots.map (·.1) ↔ key ∈ keys ∧ backend.Resolves fallback key state := by
  rw [h.map_fst_cache]
  constructor
  · intro hmem
    obtain ⟨⟨k, n⟩, hrow, rfl⟩ := List.mem_map.1 hmem
    have hlookup := lookup_of_mem h.listed.distinct hrow
    obtain ⟨entry, hentry⟩ := h.filled_of_finished hfinished hlookup
    exact ⟨h.listed.requested k n hlookup, entry.pair, h.faithful.stored k n entry (.inl hlookup) hentry⟩
  · rintro ⟨hmem, hkey⟩
    obtain ⟨entry, hcurrent⟩ := h.current?_of_finished hfinished hmem hkey
    obtain ⟨n, hlookup, -⟩ := Option.bind_eq_some_iff.1 hcurrent
    exact List.mem_map_of_mem (mem_of_lookup hlookup)

end Interleaved

end Contention

theorem resolve_alone {backend : Backend β σ} (hstable : backend.Stable) (fallback : String) (key : Key) (state : β) :
    (({ fallback } : Cache σ).resolve backend key { state }).1.map Entry.pair = backend.pairFor fallback key state :=
  (Fresh.resolve (fun _ _ hget => by cases hget) hstable key { state } state).1

/-- Resolving keys at the same time gives for each of them what resolving it alone gives. -/
theorem resolveAll_answers {backend : Backend β σ} (hstable : backend.Stable) (hcalm : backend.Calm) (fallback : String)
    (keys : List Key) (state : β) :
    (resolveAll ({ fallback } : Cache σ) backend keys { state }).1.map (·.map Entry.pair) =
      keys.map fun key => (({ fallback } : Cache σ).resolve backend key { state }).1.map Entry.pair := by
  have hstart := Contention.Interleaved.start backend fallback state keys
  have h := hstart.run hstable hcalm (Contention.inTurn keys.length)
  have hfinished := hstart.sound.run_inTurn backend
  rw [← List.length_map (·.key), hstart.listed.keys_eq] at hfinished
  have hkeys := congrArg (List.map (backend.pairFor fallback · state)) h.listed.keys_eq
  simp only [resolve_alone hstable]
  rw [resolveAll, List.map_filterMap, ← hkeys, List.map_map, List.filterMap_eq_map_iff_forall_eq_some]
  intro caller hcaller
  obtain ⟨answer, hanswer⟩ := Option.isSome_iff_exists.1 (hfinished caller hcaller)
  obtain ⟨i, hi⟩ := List.getElem?_of_mem hcaller
  obtain ⟨key, stage⟩ := caller
  cases stage with
  | ready | waiting | holding | cleaning => cases hanswer
  | returned answer => exact congrArg some (h.faithful.told i key _ hi)

open Contention in
/-- **Calls at the same time come to what they come to one by one.** Let any calls be made on an empty cache of a backend
that answers by the name alone and whose loads do not panic, and let them take their steps in any order. At each point, a
call that has returned has the pair, or the error, that it would have by itself; the calls for one key that have returned
a pair have the same entry; the backend was asked for what the builds ask for, and for a pair that can be had there was at
most one. When all calls have returned, there was one build of each such pair that was asked for, and the cache has a slot
for each of them and for no other key, with the entry that was returned. And they can all return, from each point on. -/
theorem resolve_interleaved {backend : Backend β σ} (hstable : backend.Stable) (hcalm : backend.Calm)
    (fallback : String) (keys : List Key) (state : β) (schedule : List Nat) :
    let m := (start { fallback } keys { state }).run backend schedule
    let alone (key : Key) := (({ fallback } : Cache σ).resolve backend key { state }).1.map Entry.pair
    (∀ (i : Nat) (key : Key) (answer : Except Failure (Entry σ)),
      m.callers[i]? = some ⟨key, .returned answer⟩ → answer.map Entry.pair = alone key) ∧
    (∀ (i j : Nat) (key : Key) (entry other : Entry σ), m.callers[i]? = some ⟨key, .returned (.ok entry)⟩ →
      m.callers[j]? = some ⟨key, .returned (.ok other)⟩ → entry = other) ∧
    m.session.loads = m.session.missed.flatMap (backend.loadsFor fallback · state) ∧
    (∀ key pair, alone key = .ok pair → m.session.missed.count key ≤ 1) ∧
    (m.Finished →
      (∀ key ∈ keys, ∀ pair, alone key = .ok pair → m.session.missed.count key = 1) ∧
      m.cache.Distinct ∧
      (∀ key, key ∈ m.cache.slots.map (·.1) ↔ key ∈ keys ∧ ∃ pair, alone key = .ok pair) ∧
      (∀ key slot, (key, slot) ∈ m.cache.slots → slot.entry.isSome) ∧
      ∀ (i : Nat) (key : Key) (entry : Entry σ),
        m.callers[i]? = some ⟨key, .returned (.ok entry)⟩ → m.cache.get? key = some entry) ∧
    m.callers.map (·.key) = keys ∧ (m.run backend (inTurn keys.length)).Finished := by
  intro m alone
  have h : m.Interleaved backend fallback state keys :=
    (Interleaved.start backend fallback state keys).run hstable hcalm schedule
  have halone : ∀ key, alone key = backend.pairFor fallback key state := fun key =>
    resolve_alone hstable fallback key state
  have hanswer : ∀ (i : Nat) (key : Key) (entry : Entry σ), m.callers[i]? = some ⟨key, .returned (.ok entry)⟩ →
      m.current? key = some entry := fun i key entry hi =>
    (h.loyal key ⟨entry.pair, (h.faithful.told i key _ hi).symm⟩).answer i entry hi
  have honce : ∀ key pair, alone key = .ok pair →
      m.session.missed.count key = if (m.current? key).isSome then 1 else 0 := fun key pair hpair =>
    h.logged.once key ⟨pair, halone key ▸ hpair⟩
  refine ⟨fun i key answer hi => ?_, fun i j key entry other hi hj => ?_, h.logged.loads_eq, fun key pair hpair => ?_,
    fun hfinished => ⟨fun key hmem pair hpair => ?_, h.distinct_cache, fun key => ?_, fun key slot hmem => ?_,
      fun i key entry hi => h.get?_cache (hanswer i key entry hi)⟩, h.listed.keys_eq, ?_⟩
  · rw [halone]
    exact h.faithful.told i key _ hi
  · have hentry := hanswer i key entry hi
    rw [hanswer j key other hj] at hentry
    cases hentry
    rfl
  · rw [honce key pair hpair]
    split
    · exact Nat.le_refl _
    · exact Nat.zero_le _
  · obtain ⟨entry, hcurrent⟩ := h.current?_of_finished hfinished hmem ⟨pair, halone key ▸ hpair⟩
    rw [honce key pair hpair, hcurrent]
    rfl
  · rw [h.mem_cache_iff hfinished key, halone]
    rfl
  · obtain ⟨n, hrow, hslot⟩ := Interleaved.mem_slots_cache hmem
    obtain ⟨entry, hentry⟩ := h.filled_of_finished hfinished (lookup_of_mem h.listed.distinct hrow)
    rw [← hslot, hentry]
    rfl
  · have hfinished := h.sound.run_inTurn backend
    rw [← List.length_map (·.key), h.listed.keys_eq] at hfinished
    exact hfinished

open Contention in
/-- Two calls for a pair, and two for a theme that there is not: the pair is built once, and is all that is cached. -/
theorem resolve_interleaved_four :
    let key : Key := ⟨"bytes", "plain"⟩
    let unknown : Key := ⟨"bytes", "fancy"⟩
    let backend := Backend.only .plain .bytewise
    let m := (start { fallback := "bytes" } [key, unknown, key, unknown] { state := () }).run backend (inTurn 4)
    m.Finished ∧ m.session.missed.count key = 1 ∧ key ∈ m.cache.slots.map (·.1) ∧ unknown ∉ m.cache.slots.map (·.1) := by
  intro key unknown backend m
  have hstable := Backend.stable_only .plain .bytewise
  have hcalm := Backend.calm_only .plain .bytewise
  obtain ⟨-, -, -, -, -, -, hfinished⟩ := resolve_interleaved hstable hcalm "bytes" [key, unknown, key, unknown] () []
  obtain ⟨-, -, -, -, hdone, -⟩ :=
    resolve_interleaved hstable hcalm "bytes" [key, unknown, key, unknown] () (inTurn 4)
  obtain ⟨hbuilt, -, hkeys, -⟩ := hdone hfinished
  refine ⟨hfinished, hbuilt key (by simp) _ rfl, (hkeys key).2 ⟨by simp, _, rfl⟩, fun hmem => ?_⟩
  obtain ⟨-, pair, hpair⟩ := (hkeys unknown).1 hmem
  cases hpair

end Cache

end Highlight
