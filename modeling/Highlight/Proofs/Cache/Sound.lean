/-
Calls and the cells they share. `Sound` is what is true of them at any point of
any run: a cell serves the calls for one key, its lock is held by the call that
answers under it, and what a call was answered with stays in some cell. A step
keeps it (`Sound.step`), whatever the backend answers, and so does a run
(`sound_run`).
-/
import Highlight.Proofs.Cache.Moves

namespace Highlight.Cache.Contention

/-- What the calls on a cache keep true of its cells. -/
structure Sound (m : Contention β σ) : Prop where
  /-- The table and the calls name cells that there are. -/
  valid (key : Key) (n : Nat) : m.Uses key n → n < m.cells.length
  /-- A cell serves one key. -/
  owned (key k : Key) (n : Nat) : m.Uses key n → m.Uses k n → key = k
  held (n i : Nat) : m.holder? n = some i ↔ ∃ key, m.callers[i]? = some ⟨key, .holding n⟩
  numbered (n : Nat) (entry : Entry σ) : m.stored? n = some entry → entry.serial < m.built
  /-- An entry that a call was answered with is still in a cell, though perhaps not in one of the table. -/
  kept (i : Nat) (key : Key) (entry : Entry σ) :
    m.callers[i]? = some ⟨key, .returned (.ok entry)⟩ → ∃ n, m.stored? n = some entry

variable {backend : Backend β σ} {m : Contention β σ} {i j n : Nat} {key k : Key}

theorem run_cons (backend : Backend β σ) (m : Contention β σ) (i : Nat) (schedule : List Nat) :
    m.run backend (i :: schedule) = (m.step backend i).run backend schedule := rfl

theorem run_append (backend : Backend β σ) (m : Contention β σ) (before after : List Nat) :
    m.run backend (before ++ after) = (m.run backend before).run backend after :=
  List.foldl_append

theorem callers_start {c : Cache σ} {keys : List Key} {s : Session β} {caller : Caller σ}
    (h : (start c keys s).callers[i]? = some caller) : keys[i]? = some caller.key ∧ caller.stage = .ready := by
  rw [start, List.getElem?_map, Option.map_eq_some_iff] at h
  obtain ⟨key, hkey, rfl⟩ := h
  exact ⟨hkey, rfl⟩

namespace Sound

theorem start (fallback : String) (keys : List Key) (s : Session β) :
    (start ({ fallback } : Cache σ) keys s).Sound := by
  have hunused : ∀ key n, ¬ (Contention.start ({ fallback } : Cache σ) keys s).Uses key n := by
    rintro key n (hlookup | ⟨i, stage, hi, hn⟩)
    · cases hlookup
    · obtain ⟨-, rfl⟩ := callers_start hi
      cases hn
  refine ⟨fun key n h => (hunused key n h).elim, fun key _ n h _ => (hunused key n h).elim, fun n i => ?_,
    fun n entry h => (by cases h), fun i key entry h => ?_⟩
  · refine iff_of_false (fun h => by cases h) fun ⟨key, hi⟩ => ?_
    cases (callers_start hi).2
  · cases (callers_start h).2

theorem move (h : m.Sound) (backend : Backend β σ) (i : Nat) : Move backend m i (m.step backend i) :=
  step_move backend i fun key stage n hi hn => h.valid key n (.inr ⟨i, stage, hi, hn⟩)

/-- A lock that a call gives back was held by no other call. -/
theorem held_step (h : m.Sound) (backend : Backend β σ) (i : Nat) (n j : Nat) :
    (m.step backend i).holder? n = some j ↔ ∃ key, (m.step backend i).callers[j]? = some ⟨key, .holding n⟩ := by
  have hmove := h.move backend i
  by_cases hji : j = i
  · subst hji
    rcases hmove.holders with ⟨hsame, hstage⟩ | ⟨key, n', hwaiting, hholding, -, hset⟩ |
      ⟨key, n', hholding, hreleased, hset⟩
    · rw [hsame, h.held]
      exact exists_congr fun key => (hstage key n).symm
    · rw [hset, hholding]
      by_cases hn : n = n'
      · simp [hn]
      · rw [if_neg hn, h.held, hwaiting]
        simp [Ne.symm hn]
    · refine iff_of_false (fun hholder => ?_) fun ⟨key', hj⟩ => hreleased key' n hj
      rw [hset] at hholder
      split at hholder
      · cases hholder
      · rename_i hn
        obtain ⟨key', hj⟩ := (h.held n j).1 hholder
        rw [hholding] at hj
        cases hj
        exact hn rfl
  · rw [hmove.callers_of_ne hji, ← h.held]
    rcases hmove.holders with ⟨hsame, -⟩ | ⟨key, n', -, -, hfree, hset⟩ | ⟨key, n', hholding, -, hset⟩
    · rw [hsame]
    · rw [hset]
      split
      · rename_i hn
        rw [hn, hfree]
        exact iff_of_false (fun hsome => hji (Option.some.inj hsome).symm) fun hsome => by cases hsome
      · exact Iff.rfl
    · rw [hset]
      split
      · rename_i hn
        rw [hn, (h.held n' i).2 ⟨key, hholding⟩]
        exact iff_of_false (fun hsome => by cases hsome) fun hsome => hji (Option.some.inj hsome).symm
      · exact Iff.rfl

/-- **A step keeps the cells in order**, whatever the backend answers. -/
theorem step (h : m.Sound) (backend : Backend β σ) (i : Nat) : (m.step backend i).Sound := by
  have hmove := h.move backend i
  refine ⟨fun key n huses => ?_, fun key k n hkey hk => ?_, h.held_step backend i, fun n entry hentry => ?_,
    fun j key entry hj => ?_⟩
  · rcases hmove.uses huses with hbefore | ⟨rfl, hlength, -⟩
    · exact Nat.lt_of_lt_of_le (h.valid key n hbefore) hmove.length_cells_le
    · exact hlength ▸ Nat.lt_succ_self _
  · -- A new cell is none of those that were in use.
    rcases hmove.uses hkey with hkey | ⟨rfl, -, hkey, -⟩ <;> rcases hmove.uses hk with hk | ⟨hn, -, hk, -⟩
    · exact h.owned key k n hkey hk
    · exact absurd (h.valid key n hkey) (hn ▸ Nat.lt_irrefl _)
    · exact absurd (h.valid k _ hk) (Nat.lt_irrefl _)
    · rw [hkey] at hk
      cases hk
      rfl
  · rcases hmove.entries with ⟨hbuilt, hsame, -⟩ | ⟨_, _, _, _, -, -, -, hserial, hbuilt, -, hset⟩
    · rw [hsame] at hentry
      exact hbuilt ▸ h.numbered n entry hentry
    · rw [hset] at hentry
      rw [hbuilt]
      split at hentry
      · cases hentry
        exact hserial ▸ Nat.lt_succ_self _
      · exact Nat.lt_succ_of_lt (h.numbered n entry hentry)
  · rcases hmove.answered hj with hbefore | ⟨-, n, -, hentry⟩
    · obtain ⟨n, hentry⟩ := h.kept j key entry hbefore
      exact ⟨n, hmove.stored?_of_some hentry⟩
    · exact ⟨n, hentry⟩

/-- **So does a run.** -/
theorem run (h : m.Sound) (backend : Backend β σ) (schedule : List Nat) : (m.run backend schedule).Sound := by
  induction schedule generalizing m with
  | nil => exact h
  | cons i schedule ih => exact ih (h.step backend i)

end Sound

theorem sound_run (backend : Backend β σ) (fallback : String) (keys : List Key) (s : Session β) (schedule : List Nat) :
    ((start { fallback } keys s).run backend schedule).Sound :=
  (Sound.start fallback keys s).run backend schedule

end Highlight.Cache.Contention
