/-
Calls come to their end. A step takes its call further, or the call is stuck:
it has returned, or it waits for a lock (`Move.work`). A lock is held by a
call that is not stuck, so if all calls are, then all have returned
(`Sound.returned_of_stuck`). A call has four steps before it; so after that many
rounds for each call, all have returned (`Sound.run_inTurn`).
-/
import Mathlib.Algebra.Ring.Nat
import Highlight.Proofs.Cache.Sound

namespace Highlight.Cache

theorem Stage.work_le (stage : Stage σ) : stage.work ≤ 4 := by
  cases stage <;> simp [work]

theorem Caller.isSome_answer?_iff (caller : Caller σ) : caller.answer?.isSome ↔ caller.stage.work = 0 := by
  obtain ⟨key, stage⟩ := caller
  cases stage <;> simp [answer?, Stage.work]

namespace Contention

/-- How many steps the calls have before them, at most. -/
def work (m : Contention β σ) : Nat := (m.callers.map (·.stage.work)).sum

/-- All calls have returned. -/
def Finished (m : Contention β σ) : Prop := ∀ caller ∈ m.callers, caller.answer?.isSome

variable {backend : Backend β σ} {m m' : Contention β σ} {i j : Nat} {key : Key} {stage : Stage σ}

theorem work_eq_zero_iff : m.work = 0 ↔ m.Finished := by
  rw [work, List.sum_eq_zero_iff_forall_eq_nat, List.forall_mem_map, Finished]
  exact forall₂_congr fun caller _ => caller.isSome_answer?_iff.symm

theorem work_le (m : Contention β σ) : m.work ≤ 4 * m.callers.length := by
  rw [work]
  induction m.callers with
  | nil => exact Nat.le_refl _
  | cons caller callers ih =>
    have := caller.stage.work_le
    simp only [List.map_cons, List.sum_cons, List.length_cons]
    omega

/-- If one call has fewer steps before it, and the others are as they were, then there are fewer steps to come. -/
theorem work_lt {stage' : Stage σ} (caller : m.callers[i]? = some ⟨key, stage⟩) (hless : stage'.work < stage.work)
    (hcallers : ∀ j, m'.callers[j]? = if j = i then some ⟨key, stage'⟩ else m.callers[j]?) : m'.work < m.work := by
  obtain ⟨hi, hget⟩ := List.getElem?_eq_some_iff.1 caller
  have hset : m'.callers = m.callers.set i ⟨key, stage'⟩ := by
    refine List.ext_getElem? fun j => ?_
    rw [hcallers, List.getElem?_set]
    by_cases hj : j = i
    · subst hj
      simp [hi]
    · simp [hj, Ne.symm hj]
  have hsplit : m.callers = m.callers.take i ++ ⟨key, stage⟩ :: m.callers.drop (i + 1) := by
    rw [← hget, List.getElem_cons_drop, List.take_append_drop]
  have hsum := congrArg (fun callers : List (Caller σ) => (callers.map (·.stage.work)).sum) hsplit
  rw [work, work, hset, List.set_eq_take_append_cons_drop, if_pos hi]
  simp only [List.map_append, List.map_cons, List.sum_append, List.sum_cons] at hsum ⊢
  omega

theorem Move.length_callers (h : Move backend m i m') : m'.callers.length = m.callers.length := by
  rw [← List.length_map (·.key), h.keys_eq, List.length_map]

theorem Move.work (h : Move backend m i m') : (m' = m ∧ m.Stuck i) ∨ m'.work < m.work := by
  rcases h.callers with hstay | ⟨key, stage, stage', hcaller, hless, hcallers⟩
  · exact .inl hstay
  · exact .inr (work_lt hcaller hless hcallers)

namespace Sound

theorem length_callers_run (h : m.Sound) (backend : Backend β σ) (schedule : List Nat) :
    (m.run backend schedule).callers.length = m.callers.length := by
  induction schedule generalizing m with
  | nil => rfl
  | cons i schedule ih => exact (ih (h.step backend i)).trans (h.move backend i).length_callers

/-- In a run, there come to be fewer steps before the calls, unless each call that it names is stuck. -/
theorem run_work (h : m.Sound) (backend : Backend β σ) (schedule : List Nat) :
    (m.run backend schedule = m ∧ ∀ i ∈ schedule, m.Stuck i) ∨ (m.run backend schedule).work < m.work := by
  induction schedule generalizing m with
  | nil => exact .inl ⟨rfl, by simp⟩
  | cons i schedule ih =>
    have hrest := ih (h.step backend i)
    rcases (h.move backend i).work with ⟨hstay, hstuck⟩ | hless
    · rw [hstay] at hrest
      rw [run_cons, hstay]
      exact hrest.imp_left fun ⟨hsame, hall⟩ => ⟨hsame, List.forall_mem_cons.2 ⟨hstuck, hall⟩⟩
    · refine .inr (Nat.lt_of_le_of_lt ?_ hless)
      rcases hrest with ⟨hsame, -⟩ | hlt
      · exact Nat.le_of_eq (congrArg work hsame)
      · exact Nat.le_of_lt hlt

/-- **The calls do not all wait for each other**: if none can go on, all have returned. -/
theorem returned_of_stuck (h : m.Sound) (hstuck : ∀ i < m.callers.length, m.Stuck i) : m.Finished := by
  intro caller hcaller
  obtain ⟨i, hi, hget⟩ := List.getElem_of_mem hcaller
  obtain ⟨key, stage⟩ := caller
  have hcall : m.callers[i]? = some ⟨key, stage⟩ := List.getElem?_eq_some_iff.2 ⟨hi, hget⟩
  rcases hstuck i hi key stage hcall with ⟨answer, rfl⟩ | ⟨n, rfl, hsome⟩
  · rfl
  · -- The call that holds the lock is answered next, so it is not stuck.
    obtain ⟨j, hholder⟩ := Option.isSome_iff_exists.1 hsome
    obtain ⟨k, hj⟩ := (h.held n j).1 hholder
    rcases hstuck j (List.getElem?_eq_some_iff.1 hj).1 k _ hj with ⟨answer, heq⟩ | ⟨n', heq, -⟩ <;> cases heq

theorem finished_of_rounds (h : m.Sound) (backend : Backend β σ) (rounds : Nat) (hwork : m.work ≤ rounds) :
    (m.run backend (List.replicate rounds (List.range m.callers.length)).flatten).Finished := by
  induction rounds generalizing m with
  | zero => exact work_eq_zero_iff.1 (Nat.le_zero.1 hwork)
  | succ rounds ih =>
    rw [List.replicate_succ, List.flatten_cons, run_append]
    have hround := h.run_work backend (List.range m.callers.length)
    have hlength := h.length_callers_run backend (List.range m.callers.length)
    have ih := ih (h.run backend (List.range m.callers.length))
    rw [hlength] at ih
    refine ih ?_
    rcases hround with ⟨hsame, hstuck⟩ | hless
    · have hfinished := h.returned_of_stuck fun i hi => hstuck i (List.mem_range.2 hi)
      rw [hsame, work_eq_zero_iff.2 hfinished]
      exact Nat.zero_le _
    · omega

/-- **All calls return**, if they take their steps in turn, from whatever point of a run on. -/
theorem run_inTurn (h : m.Sound) (backend : Backend β σ) :
    (m.run backend (inTurn m.callers.length)).Finished :=
  h.finished_of_rounds backend _ m.work_le

end Sound

end Contention

end Highlight.Cache
