/-
What becomes of a pair that a call was answered with, while other calls for its
key go on. A call that begins later is answered with the same pair, and asks
the backend for nothing, if the table leads to the pair at that time
(`Sound.served_of_current?`), and only then (`Sound.current?_of_served`).

The table leads to it if no call for the key has failed (`Loyal`). After a
failure it may not: the failed call takes its empty cell out of the table, and
one that has fetched this cell before, but not yet its lock, then builds a pair
into it that no later call can find (`not_served_after_failure`).
-/
import Mathlib
import Highlight.Proofs.Cache.Loyal
import Highlight.Proofs.Cache.Progress
import Highlight.Proofs.Reconstruction

namespace Highlight

namespace Cache

/-- The stages of a call that comes to be answered with an entry from its cell. -/
inductive Stage.Toward (n : Nat) (entry : Entry σ) : Stage σ → Prop
  | ready : Toward n entry .ready
  | waiting : Toward n entry (.waiting n)
  | holding : Toward n entry (.holding n)
  | returned : Toward n entry (.returned (.ok entry))

namespace Contention

/-- The answer of a call, once it has returned. -/
def answer? (m : Contention β σ) (j : Nat) : Option (Except Failure (Entry σ)) := m.callers[j]?.bind Caller.answer?

/-- However the calls go on, this one asks the backend for nothing, and comes to be answered with this entry. -/
def Served (backend : Backend β σ) (m : Contention β σ) (j : Nat) (entry : Entry σ) : Prop :=
  ∀ schedule, let later := m.run backend schedule
    (later.step backend j).session.loads = later.session.loads ∧
    (later.run backend (inTurn m.callers.length)).answer? j = some (.ok entry)

/-- The table leads to this entry, and so does what the call has done so far. -/
def OnCourse (m : Contention β σ) (key : Key) (j : Nat) (entry : Entry σ) : Prop :=
  ∃ n stage, m.table.lookup key = some n ∧ m.stored? n = some entry ∧ m.callers[j]? = some ⟨key, stage⟩ ∧
    stage.Toward n entry

variable {backend : Backend β σ} {m m' : Contention β σ} {i j n : Nat} {key k : Key} {stage : Stage σ}
  {entry other : Entry σ}

/-! ## What a call does next -/

theorem Move.of_ready (h : Move backend m i m') (hi : m.callers[i]? = some ⟨key, .ready⟩) :
    ∃ n, m'.callers[i]? = some ⟨key, .waiting n⟩ ∧ (m.table.lookup key = some n ∨ m.cells.length ≤ n) ∧
      (∀ k, m'.stored? k = m.stored? k) ∧ ∀ k, m'.holder? k = m.holder? k := by
  cases h with
  | stay stuck => rcases stuck key _ hi with ⟨_, heq⟩ | ⟨_, heq, -⟩ <;> cases heq
  | fetch caller present =>
    rw [hi] at caller
    cases caller
    exact ⟨_, callers_advance_self hi _, .inl present, stored?_congr rfl, holder?_congr rfl⟩
  | create caller =>
    rw [hi] at caller
    cases caller
    exact ⟨_, callers_advance_self (by exact hi) _, .inr (Nat.le_refl _), stored?_append rfl,
      holder?_append rfl⟩
  | lock caller | hit caller | built caller | failed caller | panicked caller | keep caller | remove caller =>
    rw [hi] at caller
    cases caller

theorem Move.of_waiting (h : Move backend m i m') (hi : m.callers[i]? = some ⟨key, .waiting n⟩)
    (hfree : m.holder? n = none) :
    m'.callers[i]? = some ⟨key, .holding n⟩ ∧ ∀ k, m'.stored? k = m.stored? k := by
  cases h with
  | stay stuck =>
    rcases stuck key _ hi with ⟨_, heq⟩ | ⟨_, heq, hheld⟩ <;> cases heq
    rw [hfree] at hheld
    cases hheld
  | lock caller at_cell =>
    rw [hi] at caller
    cases caller
    exact ⟨callers_advance_self (by exact hi) _, stored?_set_same at_cell rfl rfl⟩
  | fetch caller | create caller | hit caller | built caller | failed caller | panicked caller | keep caller
  | remove caller =>
    rw [hi] at caller
    cases caller

theorem Move.of_holding (h : Move backend m i m') (hi : m.callers[i]? = some ⟨key, .holding n⟩) :
    m'.holder? n = none ∧ m'.table = m.table ∧ (m.stored? n = none → m'.session.loads ≠ m.session.loads) := by
  have hfree : ∀ {cell cell' : Cell σ}, m.cells[n]? = some cell → m'.cells = m.cells.set n cell' → cell'.holder = none →
      m'.holder? n = none := fun hat hset hnone => by rw [holder?_set hat hset, if_pos rfl, hnone]
  have hasks : m.stored? n = none → m'.session.loads ≠ m.session.loads := fun hempty hsame => by
    rcases h.session with ⟨-, -, hfilled⟩ | ⟨k, _, state, -, -, hloads, -⟩
    · exact hfilled key n hi hempty
    · rw [hloads] at hsame
      exact backend.loadsFor_ne_nil m.fallback k state (by simpa using hsame)
  cases h with
  | stay stuck => rcases stuck key _ hi with ⟨_, heq⟩ | ⟨_, heq, -⟩ <;> cases heq
  | hit caller at_cell | built caller at_cell | failed caller at_cell | panicked caller at_cell =>
    rw [hi] at caller
    cases caller
    exact ⟨hfree at_cell rfl rfl, rfl, hasks⟩
  | fetch caller | create caller | lock caller | keep caller | remove caller =>
    rw [hi] at caller
    cases caller

/-! ## A call that finds the entry -/

theorem OnCourse.move (h : m.OnCourse key j entry) (hmove : Move backend m i m') : m'.OnCourse key j entry := by
  obtain ⟨n, stage, hlookup, hstored, hj, htoward⟩ := h
  have hcurrent : m.current? key = some entry := by rw [current?, hlookup, Option.bind_some, hstored]
  refine ⟨n, ?_⟩
  rw [(hmove.current?_of_some hcurrent).1, hmove.stored?_of_some hstored]
  by_cases hji : j = i
  · subst hji
    cases hmove with
    | stay => exact ⟨stage, hlookup, rfl, hj, htoward⟩
    | fetch caller present =>
      rw [hj] at caller
      cases caller
      rw [hlookup] at present
      cases present
      exact ⟨_, hlookup, rfl, callers_advance_self hj _, .waiting⟩
    | create caller absent =>
      rw [hj] at caller
      cases caller
      rw [hlookup] at absent
      cases absent
    | lock caller =>
      rw [hj] at caller
      cases caller
      cases htoward
      exact ⟨_, hlookup, rfl, callers_advance_self (by exact hj) _, .holding⟩
    | hit caller at_cell filled =>
      rw [hj] at caller
      cases caller
      cases htoward
      rw [stored?_of_getElem? at_cell, filled] at hstored
      cases hstored
      exact ⟨_, hlookup, rfl, callers_advance_self (by exact hj) _, .returned⟩
    | built caller at_cell empty | failed caller at_cell empty | panicked caller at_cell empty =>
      rw [hj] at caller
      cases caller
      cases htoward
      rw [stored?_of_getElem? at_cell, empty] at hstored
      cases hstored
    | keep caller | remove caller =>
      rw [hj] at caller
      cases caller
      cases htoward
  · exact ⟨stage, hlookup, rfl, (hmove.callers_of_ne hji).trans hj, htoward⟩

/-- It asks for nothing. -/
theorem OnCourse.loads (h : m.OnCourse key j entry) (hmove : Move backend m j m') :
    m'.session.loads = m.session.loads := by
  obtain ⟨n, stage, -, hstored, hj, htoward⟩ := h
  rcases hmove.session with ⟨hsame, -⟩ | ⟨_, _, _, hholding, hempty, -⟩
  · exact hsame
  · rw [hj] at hholding
    cases hholding
    cases htoward
    rw [hstored] at hempty
    cases hempty

theorem OnCourse.answer?_of_finished (h : m.OnCourse key j entry) (hfinished : m.Finished) :
    m.answer? j = some (.ok entry) := by
  obtain ⟨n, stage, -, -, hj, htoward⟩ := h
  have hreturned := hfinished _ (List.mem_of_getElem? hj)
  cases htoward with
  | ready | waiting | holding => cases hreturned
  | returned => rw [answer?, hj]; rfl

theorem not_served_of_loads (schedule : List Nat)
    (hloads : (m.run backend (schedule ++ [j])).session.loads ≠ (m.run backend schedule).session.loads)
    (entry : Entry σ) : ¬ m.Served backend j entry := by
  intro hserved
  rw [run_append] at hloads
  exact hloads (hserved schedule).1

namespace Sound

theorem onCourse_run (h : m.Sound) (hcourse : m.OnCourse key j entry) (backend : Backend β σ) (schedule : List Nat) :
    (m.run backend schedule).OnCourse key j entry := by
  induction schedule generalizing m with
  | nil => exact hcourse
  | cons i schedule ih => exact ih (h.step backend i) (hcourse.move (h.move backend i))

/-- **A call that finds the pair in the table is served with it.** -/
theorem served_of_current? (h : m.Sound) (hcurrent : m.current? key = some entry)
    (hj : m.callers[j]? = some ⟨key, .ready⟩) (backend : Backend β σ) : m.Served backend j entry := by
  obtain ⟨n, hlookup, hstored⟩ := Option.bind_eq_some_iff.1 hcurrent
  intro schedule later
  have hlater : later.Sound := h.run backend schedule
  have hcourse : later.OnCourse key j entry := h.onCourse_run ⟨n, _, hlookup, hstored, hj, .ready⟩ backend schedule
  refine ⟨hcourse.loads (hlater.move backend j), ?_⟩
  have hfinished := hlater.run_inTurn backend
  rw [h.length_callers_run backend schedule] at hfinished
  exact (hlater.onCourse_run hcourse backend _).answer?_of_finished hfinished

/-! ## A call that does not -/

/-- A call that finds no cell, or an empty one that nobody holds, and goes on by itself, asks the backend. -/
theorem not_served_of_empty (h : m.Sound) (hj : m.callers[j]? = some ⟨key, .ready⟩)
    (hempty : ∀ n, m.table.lookup key = some n → m.stored? n = none ∧ m.holder? n = none) (backend : Backend β σ)
    (entry : Entry σ) : ¬ m.Served backend j entry := by
  intro hserved
  obtain ⟨n, hwaiting, hcell, hstored, hholder⟩ := (h.move backend j).of_ready hj
  have hfree : m.stored? n = none ∧ m.holder? n = none := by
    rcases hcell with hpresent | hnew
    · exact hempty n hpresent
    · rw [stored?, holder?, List.getElem?_eq_none hnew]
      exact ⟨rfl, rfl⟩
  have h₁ := h.step backend j
  obtain ⟨hholding, hstored'⟩ := (h₁.move backend j).of_waiting hwaiting ((hholder n).trans hfree.2)
  have h₂ := h₁.step backend j
  refine ((h₂.move backend j).of_holding hholding).2.2 ?_ (hserved [j, j]).1
  rw [hstored', hstored, hfree.1]

theorem served_run (h : m.Sound) (hserved : m.Served backend j entry) (schedule : List Nat) :
    (m.run backend schedule).Served backend j entry := by
  intro schedule'
  rw [← run_append, h.length_callers_run backend schedule]
  exact hserved (schedule ++ schedule')

/-- **A call that is served with an earlier answer finds it in the table.** -/
theorem current?_of_served (h : m.Sound) (hi : m.callers[i]? = some ⟨k, .returned (.ok entry)⟩)
    (hj : m.callers[j]? = some ⟨key, .ready⟩) (hserved : m.Served backend j entry) : m.current? key = some entry := by
  -- With another pair in the table, it would be served with that one.
  have hfound : ∀ {m : Contention β σ} {other : Entry σ}, m.Sound → m.callers[j]? = some ⟨key, .ready⟩ →
      m.Served backend j entry → m.current? key = some other → other = entry := by
    intro m other h hj hserved hother
    have hanswer := (h.served_of_current? hother hj backend []).2
    rw [(hserved []).2] at hanswer
    cases hanswer
    rfl
  cases hlookup : m.table.lookup key with
  | none => exact absurd hserved (h.not_served_of_empty hj (by simp [hlookup]) backend entry)
  | some n =>
    have hcurrent : m.current? key = m.stored? n := by rw [current?, hlookup, Option.bind_some]
    cases hstored : m.stored? n with
    | some other => rw [hcurrent, hstored, hfound h hj hserved (hcurrent.trans hstored)]
    | none =>
      cases hholder : m.holder? n with
      | none => exact absurd hserved (h.not_served_of_empty hj (by simp [hlookup, hstored, hholder]) backend entry)
      | some p =>
        -- The call that holds the lock may build a pair, but that one is new.
        obtain ⟨k', hp⟩ := (h.held n p).1 hholder
        have hmove := h.move backend p
        obtain ⟨hfree, htable, -⟩ := hmove.of_holding hp
        have h' := h.step backend p
        have hserved' : (m.step backend p).Served backend j entry := h.served_run hserved [p]
        have hj' : (m.step backend p).callers[j]? = some ⟨key, .ready⟩ := by
          rw [hmove.callers_of_ne, hj]
          rintro rfl
          rw [hj] at hp
          cases hp
        rw [← htable] at hlookup
        rcases hmove.entries with ⟨-, hsame, -⟩ | ⟨_, n', other, _, hp', -, -, hserial, -, -, hset⟩
        · refine absurd hserved' (h'.not_served_of_empty hj' (fun n' hn' => ?_) backend entry)
          rw [hlookup] at hn'
          cases hn'
          exact ⟨(hsame n).trans hstored, hfree⟩
        · rw [hp] at hp'
          cases hp'
          have hother : (m.step backend p).current? key = some other := by
            rw [current?, hlookup, Option.bind_some, hset, if_pos rfl]
          obtain ⟨n', hentry⟩ := h.kept i k entry hi
          have hlt := h.numbered n' entry hentry
          rw [← hfound h' hj' hserved' hother, hserial] at hlt
          exact absurd hlt (Nat.lt_irrefl _)

end Sound

/-! ## Whether a pair outlasts the call that was answered with it -/

/-- **When a pair outlasts the call that was answered with it.** Let a call for a key have been answered with an entry,
at some point of some run, while another one for the same key has not begun. The other one is served with this entry if
and only if the table leads to it by then, whatever the backend answers to each load. So it is if no call for the key
has failed by then, and then every call for the key that was answered has this entry. -/
theorem served_iff_current? (backend : Backend β σ) (fallback : String) (keys : List Key) (s : Session β)
    (schedule : List Nat) (key : Key) (i j : Nat) (entry : Entry σ) :
    let m := (start { fallback } keys s).run backend schedule
    m.callers[i]? = some ⟨key, .returned (.ok entry)⟩ → m.callers[j]? = some ⟨key, .ready⟩ →
      (m.Served backend j entry ↔ m.current? key = some entry) ∧
      (m.Unfailed key → m.Served backend j entry ∧
        ∀ (p : Nat) (other : Entry σ), m.callers[p]? = some ⟨key, .returned (.ok other)⟩ → other = entry) := by
  intro m hi hj
  have hsound : m.Sound := sound_run backend fallback keys s schedule
  refine ⟨⟨hsound.current?_of_served hi hj, fun hcurrent => hsound.served_of_current? hcurrent hj backend⟩,
    fun hunfailed => ?_⟩
  have hloyal : m.Loyal key := loyal_run backend fallback keys s schedule hunfailed
  have hcurrent := hloyal.answer i entry hi
  refine ⟨hsound.served_of_current? hcurrent hj backend, fun p other hp => ?_⟩
  have hother := hloyal.answer p other hp
  rw [hcurrent] at hother
  cases hother
  rfl

/-- Two calls share a cell, which the first builds into; a third is served with what they were answered with. -/
theorem served_after_two :
    let key : Key := ⟨"bytes", "plain"⟩
    let entry : Entry Unit := ⟨0, .bytewise, .plain, .requested⟩
    let m := (start { fallback := "bytes" } [key, key, key] { state := () }).run (.single .plain .bytewise)
      [0, 1, 0, 0, 1, 1]
    m.callers[1]? = some ⟨key, .returned (.ok entry)⟩ ∧ m.callers[2]? = some ⟨key, .ready⟩ ∧ m.Unfailed key ∧
    m.Served (.single .plain .bytewise) 2 entry := by
  intro key entry m
  have hreturned : m.callers[1]? = some ⟨key, .returned (.ok entry)⟩ := by
    subst m entry key
    cbv
  have hready : m.callers[2]? = some ⟨key, .ready⟩ := by
    subst m key
    cbv
  have hnone : m.callers.any (·.stage.failed) = false := by
    subst m key
    cbv
  have hunfailed : m.Unfailed key := fun p stage hp =>
    Bool.eq_false_iff.2 (List.any_eq_false.1 hnone _ (List.mem_of_getElem? hp))
  exact ⟨hreturned, hready, hunfailed,
    ((served_iff_current? _ _ _ _ [0, 1, 0, 0, 1, 1] key 1 2 _ hreturned hready).2 hunfailed).1⟩

end Contention

end Cache

/-- A backend that knows its theme from the second time on that it is asked for one. -/
def Backend.faltering (theme : Theme) (grammar : Grammar σ) : Backend Bool σ where
  loadTheme name asked := (if asked then .ok theme else .error (.error (.unknownTheme name)), true)
  loadGrammar _ asked := (.ok (some grammar), asked)

namespace Cache.Contention

/-- **A pair is lost after a failure.** Two calls have fetched one cell. The first fails, and takes the cell out of the
table; the second gets its lock, and builds a pair into it. A third call, which begins when the second has been answered,
finds no cell, asks the backend again, and is answered with another pair. -/
theorem not_served_after_failure :
    let key : Key := ⟨"bytes", "plain"⟩
    let entry : Entry Unit := ⟨0, .bytewise, .plain, .requested⟩
    let backend := Backend.faltering .plain .bytewise
    let m := (start { fallback := "bytes" } [key, key, key] { state := false }).run backend [0, 1, 0, 0, 0, 1, 1]
    m.callers[1]? = some ⟨key, .returned (.ok entry)⟩ ∧ m.callers[2]? = some ⟨key, .ready⟩ ∧
    ¬ m.Served backend 2 entry ∧
    (m.run backend [2, 2, 2]).session.loads = m.session.loads ++ [.theme "plain", .grammar "bytes"] ∧
    (m.run backend [2, 2, 2]).answer? 2 = some (.ok { entry with serial := 1 }) := by
  intro key entry backend m
  have hasks : (m.run backend [2, 2, 2]).session.loads = m.session.loads ++ [.theme "plain", .grammar "bytes"] := by
    subst m backend key
    cbv
  have hbefore : (m.run backend [2, 2]).session.loads = m.session.loads := by
    subst m backend key
    cbv
  have hnot : ¬ m.Served backend 2 entry := by
    refine not_served_of_loads [2, 2] ?_ entry
    rw [List.cons_append, List.singleton_append, hasks, hbefore]
    simp
  subst m backend entry key
  refine ⟨?_, ?_, hnot, hasks, ?_⟩ <;> cbv

end Cache.Contention

end Highlight
