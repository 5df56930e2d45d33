/-
Calls for a key of which none has failed. They have only come to one cell, that
of the table, and what one of them was answered with is in it (`Loyal`). Only a
call that fails takes the cell of its key out of the table, so a run keeps this
as long as none does (`loyal_run`); a panic leaves the cell where it is.
-/
import Highlight.Proofs.Cache.Sound

namespace Highlight.Cache

/-- A call has failed, and not by a panic. -/
def Stage.failed : Stage σ → Bool
  | .cleaning _ _ | .returned (.error (.error _)) => true
  | _ => false

namespace Contention

/-- No call for the key has failed. -/
def Unfailed (m : Contention β σ) (key : Key) : Prop :=
  ∀ (j : Nat) (stage : Stage σ), m.callers[j]? = some ⟨key, stage⟩ → stage.failed = false

/-- The calls for a key have only come to the cell of the table. -/
structure Loyal (m : Contention β σ) (key : Key) : Prop where
  cell (j : Nat) (stage : Stage σ) (n : Nat) :
    m.callers[j]? = some ⟨key, stage⟩ → stage.cell? = some n → m.table.lookup key = some n
  answer (j : Nat) (entry : Entry σ) : m.callers[j]? = some ⟨key, .returned (.ok entry)⟩ → m.current? key = some entry

variable {backend : Backend β σ} {m m' : Contention β σ} {i j n : Nat} {key : Key} {stage : Stage σ}

theorem Move.still_failed (h : Move backend m i m') (hj : m.callers[j]? = some ⟨key, stage⟩) (hfailed : stage.failed = true) :
    ∃ stage', m'.callers[j]? = some ⟨key, stage'⟩ ∧ stage'.failed = true := by
  by_cases hji : j = i
  · subst hji
    cases h with
    | stay => exact ⟨stage, hj, hfailed⟩
    | keep caller | remove caller =>
      rw [hj] at caller
      cases caller
      exact ⟨_, callers_advance_self (by exact hj) _, rfl⟩
    | fetch caller | create caller | lock caller | hit caller | built caller | failed caller | panicked caller =>
      rw [hj] at caller
      cases caller
      cases hfailed
  · exact ⟨stage, (h.callers_of_ne hji).trans hj, hfailed⟩

theorem Unfailed.of_move (hmove : Move backend m i m') (h : m'.Unfailed key) : m.Unfailed key := by
  intro j stage hj
  rw [← Bool.not_eq_true]
  intro hfailed
  obtain ⟨stage', hj', hfailed'⟩ := hmove.still_failed hj hfailed
  rw [h j stage' hj'] at hfailed'
  cases hfailed'

theorem Loyal.start (fallback : String) (keys : List Key) (s : Session β) (key : Key) :
    (start ({ fallback } : Cache σ) keys s).Loyal key := by
  refine ⟨fun j stage n hj hn => ?_, fun j entry hj => ?_⟩
  · obtain ⟨-, rfl⟩ := callers_start hj
    cases hn
  · cases (callers_start hj).2

/-- Only a call for the key that fails takes its cell out of the table. -/
theorem Loyal.move (h : m.Loyal key) (hmove : Move backend m i m') (hunfailed : m.Unfailed key) : m'.Loyal key := by
  have hlookup : ∀ {n}, m.table.lookup key = some n → m'.table.lookup key = some n := fun {n} hn => by
    rcases hmove.lookup key with hsame | ⟨habsent, -⟩ | ⟨_, _, hcleaning, -⟩
    · rw [hsame, hn]
    · rw [hn] at habsent
      cases habsent
    · cases hunfailed i _ hcleaning
  refine ⟨fun j stage n hj hn => ?_, fun j entry hj => ?_⟩
  · by_cases hji : j = i
    · subst hji
      rcases hmove.cell? hj hn with htable | ⟨before, hbefore, hcell⟩
      · exact htable
      · exact hlookup (h.cell j before n hbefore hcell)
    · exact hlookup (h.cell j stage n (hmove.callers_of_ne hji ▸ hj) hn)
  · rcases hmove.answered hj with hbefore | ⟨-, n, hholding, hentry⟩
    · exact (hmove.current?_of_some (h.answer j entry hbefore)).2
    · rw [current?, hlookup (h.cell i _ n hholding rfl), Option.bind_some, hentry]

theorem Sound.unfailed_of_run (h : m.Sound) (backend : Backend β σ) (schedule : List Nat)
    (hunfailed : (m.run backend schedule).Unfailed key) : m.Unfailed key := by
  induction schedule generalizing m with
  | nil => exact hunfailed
  | cons i schedule ih => exact .of_move (h.move backend i) (ih (h.step backend i) hunfailed)

theorem Sound.loyal_run (h : m.Sound) (hloyal : m.Loyal key) (backend : Backend β σ) (schedule : List Nat)
    (hunfailed : (m.run backend schedule).Unfailed key) : (m.run backend schedule).Loyal key := by
  induction schedule generalizing m with
  | nil => exact hloyal
  | cons i schedule ih =>
    have hbefore := h.unfailed_of_run backend (i :: schedule) hunfailed
    exact ih (h.step backend i) (hloyal.move (h.move backend i) hbefore) hunfailed

/-- **Calls that have not failed lose nothing**: what a call for the key was answered with is in the table. -/
theorem loyal_run (backend : Backend β σ) (fallback : String) (keys : List Key) (s : Session β) (schedule : List Nat)
    (hunfailed : ((start { fallback } keys s).run backend schedule).Unfailed key) :
    ((start { fallback } keys s).run backend schedule).Loyal key :=
  (Sound.start fallback keys s).loyal_run (.start fallback keys s key) backend schedule hunfailed

end Contention

end Highlight.Cache
