/-
What a call can do in one step, among others on the same cache. `Move` has a
constructor for each kind of step and `step_move` finds the one that a step is,
so that what holds of every step is proved by cases on `Move`.

No step takes an entry out of a cell (`Move.stored?_of_some`) or out of the
table (`Move.current?_of_some`), and a key comes to a cell only when the cell is
made for it (`Move.uses`).
-/
import Highlight.Cache.Contention
import Highlight.Proofs.Cache.Resolve

namespace Highlight

/-- The keys that a pair was to be built for, in order: those of the cache misses logged. -/
def Session.missed (s : Session β) : List Cache.Key :=
  s.events.filterMap fun
    | .cacheMiss language theme => some ⟨language, theme⟩
    | _ => none

theorem Backend.loadsFor_ne_nil (backend : Backend β σ) (fallback : String) (key : Cache.Key) (state : β) :
    backend.loadsFor fallback key state ≠ [] := by
  unfold loadsFor
  split <;> simp

namespace Cache

theorem missed_build (backend : Backend β σ) (fallback : String) (key : Key) (s : Session β) :
    (build backend fallback key s).2.missed = s.missed := by
  obtain ⟨-, warnings, hevents, hwarnings⟩ := build_session backend fallback key s
  have hnone : warnings.filterMap (fun | .cacheMiss language theme => some (⟨language, theme⟩ : Key) | _ => none) = [] := by
    rw [List.filterMap_eq_nil_iff]
    intro w hw
    have hlevel := hwarnings w hw
    cases w <;> first | rfl | cases hlevel
  rw [Session.missed, hevents, List.filterMap_append, hnone, List.append_nil]
  rfl

/-- The cell that a call works on. -/
def Stage.cell? : Stage σ → Option Nat
  | .waiting n | .holding n | .cleaning n _ => some n
  | .ready | .returned _ => none

/-- How many steps a call has before it, at most. -/
def Stage.work : Stage σ → Nat
  | .ready => 4
  | .waiting _ => 3
  | .holding _ => 2
  | .cleaning _ _ => 1
  | .returned _ => 0

namespace Contention

/-- The entry in a cell. -/
def stored? (m : Contention β σ) (n : Nat) : Option (Entry σ) := m.cells[n]?.bind (·.slot.entry)

/-- The call that holds the lock of a cell. -/
def holder? (m : Contention β σ) (n : Nat) : Option Nat := m.cells[n]?.bind Cell.holder

/-- The entry that the table leads to. -/
def current? (m : Contention β σ) (key : Key) : Option (Entry σ) := (m.table.lookup key).bind m.stored?

/-- A key has come to a cell: the table has it there, or a call for the key works on it. -/
def Uses (m : Contention β σ) (key : Key) (n : Nat) : Prop :=
  m.table.lookup key = some n ∨ ∃ (i : Nat) (stage : Stage σ), m.callers[i]? = some ⟨key, stage⟩ ∧ stage.cell? = some n

/-- A call has nothing to do: it is none, or has returned, or another one holds the lock that it needs. -/
def Stuck (m : Contention β σ) (i : Nat) : Prop :=
  ∀ key stage, m.callers[i]? = some ⟨key, stage⟩ →
    (∃ answer, stage = .returned answer) ∨ ∃ n, stage = .waiting n ∧ (m.holder? n).isSome

/-- The ways in which a step of a call can go. -/
inductive Move (backend : Backend β σ) (m : Contention β σ) (i : Nat) : Contention β σ → Prop
  | stay (stuck : m.Stuck i) : Move backend m i m
  | fetch {key n} (caller : m.callers[i]? = some ⟨key, .ready⟩) (present : m.table.lookup key = some n) :
    Move backend m i (m.advance i (.waiting n))
  | create {key} (caller : m.callers[i]? = some ⟨key, .ready⟩) (absent : m.table.lookup key = none) :
    Move backend m i
      ({ m with table := (key, m.cells.length) :: m.table, cells := m.cells ++ [({} : Cell σ)] }.advance i
        (.waiting m.cells.length))
  | lock {key n cell session} (caller : m.callers[i]? = some ⟨key, .waiting n⟩) (at_cell : m.cells[n]? = some cell)
    (free : cell.holder = none) (loads : session.loads = m.session.loads) (missed : session.missed = m.session.missed) :
    Move backend m i ({ m.setCell n { cell with holder := some i } with session }.advance i (.holding n))
  | hit {key n cell entry} (caller : m.callers[i]? = some ⟨key, .holding n⟩) (at_cell : m.cells[n]? = some cell)
    (filled : cell.slot.entry = some entry) :
    Move backend m i
      ({ m.setCell n { slot := cell.slot } with session := m.session.log (.cacheHit key.language key.theme) }.advance i
        (.returned (.ok entry)))
  | built {key n cell theme grammar source session} (caller : m.callers[i]? = some ⟨key, .holding n⟩)
    (at_cell : m.cells[n]? = some cell) (empty : cell.slot.entry = none)
    (pair : build backend m.fallback key (m.session.log (.cacheMiss key.language key.theme)) =
      (.ok (theme, grammar, source), session)) :
    Move backend m i
      ({ m.setCell n { slot := { cell.slot with entry := some ⟨m.built, grammar, theme, source⟩ } } with
          built := m.built + 1, session }.advance i (.returned (.ok ⟨m.built, grammar, theme, source⟩)))
  | failed {key n cell e session} (caller : m.callers[i]? = some ⟨key, .holding n⟩) (at_cell : m.cells[n]? = some cell)
    (empty : cell.slot.entry = none)
    (pair : build backend m.fallback key (m.session.log (.cacheMiss key.language key.theme)) =
      (.error (.error e), session)) :
    Move backend m i ({ m.setCell n { slot := cell.slot } with session }.advance i (.cleaning n e))
  | panicked {key n cell session} (caller : m.callers[i]? = some ⟨key, .holding n⟩) (at_cell : m.cells[n]? = some cell)
    (empty : cell.slot.entry = none)
    (pair : build backend m.fallback key (m.session.log (.cacheMiss key.language key.theme)) =
      (.error .panic, session)) :
    Move backend m i
      ({ m.setCell n { slot := { interrupted := true } } with session }.advance i (.returned (.error .panic)))
  | keep {key n e} (caller : m.callers[i]? = some ⟨key, .cleaning n e⟩)
    (used : m.table.lookup key = some n → (m.holder? n).isSome ∨ (m.stored? n).isSome) :
    Move backend m i (m.advance i (.returned (.error (.error e))))
  | remove {key n e} (caller : m.callers[i]? = some ⟨key, .cleaning n e⟩) (present : m.table.lookup key = some n)
    (free : m.holder? n = none) (empty : m.stored? n = none) :
    Move backend m i ({ m with table := m.table.filter (·.1 ≠ key) }.advance i (.returned (.error (.error e))))

variable {backend : Backend β σ} {m m' : Contention β σ} {i j n : Nat} {key k : Key} {stage : Stage σ}

/-- **A step is a move**, if calls work on cells that there are. -/
theorem step_move (backend : Backend β σ) (i : Nat)
    (hvalid : ∀ key stage n, m.callers[i]? = some ⟨key, stage⟩ → stage.cell? = some n → n < m.cells.length) :
    Move backend m i (m.step backend i) := by
  unfold step
  cases hcaller : m.callers[i]? with
  | none => exact .stay fun key stage h => by rw [hcaller] at h; cases h
  | some caller =>
    obtain ⟨key, stage⟩ := caller
    have hcell : ∀ n, stage.cell? = some n → ∃ cell, m.cells[n]? = some cell := fun n hn =>
      ⟨_, List.getElem?_eq_getElem (hvalid key stage n hcaller hn)⟩
    cases stage with
    | ready =>
      dsimp only
      unfold fetch
      cases hlookup : m.table.lookup key with
      | some n => exact .fetch hcaller hlookup
      | none => exact .create hcaller hlookup
    | waiting n =>
      obtain ⟨cell, hat⟩ := hcell n rfl
      dsimp only
      rw [hat, Option.getD_some]
      unfold lock
      cases hholder : cell.holder with
      | some j =>
        refine .stay fun key' stage' h => .inr ⟨n, ?_, ?_⟩
        · rw [hcaller] at h
          cases h
          rfl
        · rw [holder?, hat, Option.bind_some, hholder]
          rfl
      | none =>
        refine .lock hcaller hat hholder ?_ ?_
        · split <;> rfl
        · split
          · simp [Session.missed, Session.log]
          · rfl
    | holding n =>
      obtain ⟨cell, hat⟩ := hcell n rfl
      dsimp only
      rw [hat, Option.getD_some]
      unfold answer
      cases hentry : cell.slot.entry with
      | some entry => exact .hit hcaller hat hentry
      | none =>
        rcases hbuild : build backend m.fallback key (m.session.log (.cacheMiss key.language key.theme)) with
          ⟨(e | _) | ⟨theme, grammar, source⟩, session⟩
        · exact .failed hcaller hat hentry hbuild
        · exact .panicked hcaller hat hentry hbuild
        · exact .built hcaller hat hentry hbuild
    | cleaning n e =>
      obtain ⟨cell, hat⟩ := hcell n rfl
      dsimp only
      rw [hat, Option.getD_some]
      unfold clean
      have hholder : m.holder? n = cell.holder := by rw [holder?, hat, Option.bind_some]
      have hentry : m.stored? n = cell.slot.entry := by rw [stored?, hat, Option.bind_some]
      by_cases hunused : m.table.lookup key = some n ∧ cell.holder = none ∧ cell.slot.entry = none
      · obtain ⟨hlookup, hfree, hempty⟩ := hunused
        simp only [hlookup, hfree, hempty, Option.isNone_none, Bool.and_true, decide_true, if_true]
        exact .remove hcaller hlookup (hholder.trans hfree) (hentry.trans hempty)
      · have hused : (decide (m.table.lookup key = some n) && cell.holder.isNone && cell.slot.entry.isNone) = false := by
          rw [Bool.eq_false_iff]
          exact fun h => hunused (by simpa [and_assoc] using h)
        simp only [hused]
        refine .keep hcaller fun hlookup => ?_
        rw [hholder, hentry]
        cases hfree : cell.holder <;> cases hempty : cell.slot.entry <;> simp_all
    | returned answer => exact .stay fun key' stage' h => .inl ⟨answer, by rw [hcaller] at h; cases h; rfl⟩

/-! ## What a move changes -/

theorem stored?_congr (h : m'.cells = m.cells) (n : Nat) : m'.stored? n = m.stored? n := by rw [stored?, stored?, h]

theorem holder?_congr (h : m'.cells = m.cells) (n : Nat) : m'.holder? n = m.holder? n := by rw [holder?, holder?, h]

theorem stored?_append (h : m'.cells = m.cells ++ [({} : Cell σ)]) (n : Nat) : m'.stored? n = m.stored? n := by
  rw [stored?, stored?, h, List.getElem?_append]
  split
  · rfl
  · rename_i hn
    rw [List.getElem?_eq_none (Nat.le_of_not_lt hn)]
    cases n - m.cells.length <;> rfl

theorem holder?_append (h : m'.cells = m.cells ++ [({} : Cell σ)]) (n : Nat) : m'.holder? n = m.holder? n := by
  rw [holder?, holder?, h, List.getElem?_append]
  split
  · rfl
  · rename_i hn
    rw [List.getElem?_eq_none (Nat.le_of_not_lt hn)]
    cases n - m.cells.length <;> rfl

theorem getElem?_set_of_some {cells : List (Cell σ)} {cell cell' : Cell σ} (hat : cells[n]? = some cell) (k : Nat) :
    (cells.set n cell')[k]? = if k = n then some cell' else cells[k]? := by
  rw [List.getElem?_set]
  by_cases hk : k = n
  · rw [if_pos hk.symm, if_pos (List.getElem?_eq_some_iff.1 hat).1, if_pos hk]
  · rw [if_neg (Ne.symm hk), if_neg hk]

theorem stored?_set {cell cell' : Cell σ} (hat : m.cells[n]? = some cell) (h : m'.cells = m.cells.set n cell') (k : Nat) :
    m'.stored? k = if k = n then cell'.slot.entry else m.stored? k := by
  rw [stored?, stored?, h, getElem?_set_of_some hat]
  split <;> rfl

theorem holder?_set {cell cell' : Cell σ} (hat : m.cells[n]? = some cell) (h : m'.cells = m.cells.set n cell') (k : Nat) :
    m'.holder? k = if k = n then cell'.holder else m.holder? k := by
  rw [holder?, holder?, h, getElem?_set_of_some hat]
  split <;> rfl

theorem stored?_of_getElem? {cell : Cell σ} (hat : m.cells[n]? = some cell) : m.stored? n = cell.slot.entry := by
  rw [stored?, hat, Option.bind_some]

theorem holder?_of_getElem? {cell : Cell σ} (hat : m.cells[n]? = some cell) : m.holder? n = cell.holder := by
  rw [holder?, hat, Option.bind_some]

/-- A cell that is set with the entry that it has changes no entry. -/
theorem stored?_set_same {cell cell' : Cell σ} (hat : m.cells[n]? = some cell) (h : m'.cells = m.cells.set n cell')
    (hsame : cell'.slot.entry = cell.slot.entry) (k : Nat) : m'.stored? k = m.stored? k := by
  rw [stored?_set hat h]
  split
  · rename_i hk
    rw [hsame, hk, stored?_of_getElem? hat]
  · rfl

theorem callers_advance (h : m.callers[i]? = some ⟨key, stage⟩) (stage' : Stage σ) (j : Nat) :
    (m.advance i stage').callers[j]? = if j = i then some ⟨key, stage'⟩ else m.callers[j]? := by
  rw [advance, List.getElem?_modify]
  by_cases hj : j = i
  · subst hj
    simp [h]
  · simp [hj, Ne.symm hj]

theorem callers_advance_self (h : m.callers[i]? = some ⟨key, stage⟩) (stage' : Stage σ) :
    (m.advance i stage').callers[i]? = some ⟨key, stage'⟩ :=
  (callers_advance h stage' i).trans (if_pos rfl)

/-- A move that changes anything takes its own call further, and leaves the other calls where they are. -/
theorem Move.callers (h : Move backend m i m') :
    (m' = m ∧ m.Stuck i) ∨ ∃ key stage stage', m.callers[i]? = some ⟨key, stage⟩ ∧ stage'.work < stage.work ∧
      ∀ j, m'.callers[j]? = if j = i then some ⟨key, stage'⟩ else m.callers[j]? := by
  cases h with
  | stay stuck => exact .inl ⟨rfl, stuck⟩
  | fetch caller | create caller | lock caller | hit caller | built caller | failed caller | panicked caller | keep caller
  | remove caller => exact .inr ⟨_, _, _, caller, by simp [Stage.work], callers_advance caller _⟩

theorem Move.callers_of_ne (h : Move backend m i m') (hj : j ≠ i) : m'.callers[j]? = m.callers[j]? := by
  obtain ⟨rfl, -⟩ | ⟨key, stage, stage', -, -, hcallers⟩ := h.callers
  · rfl
  · rw [hcallers, if_neg hj]

theorem Move.keys_eq (h : Move backend m i m') : m'.callers.map (·.key) = m.callers.map (·.key) := by
  obtain ⟨rfl, -⟩ | ⟨key, stage, stage', hi, -, hcallers⟩ := h.callers
  · rfl
  · refine List.ext_getElem? fun j => ?_
    rw [List.getElem?_map, List.getElem?_map, hcallers]
    split
    · rename_i hj
      rw [hj, hi]
      rfl
    · rfl

theorem Move.length_cells_le (h : Move backend m i m') : m.cells.length ≤ m'.cells.length := by
  cases h with
  | stay | fetch | keep | remove => exact Nat.le_refl _
  | create => simp [advance]
  | lock | hit | built | failed | panicked => simp [advance, setCell]

theorem Move.fallback_eq (h : Move backend m i m') : m'.fallback = m.fallback := by
  cases h <;> rfl

/-- What a move does to the cell of a key in the table: nothing, or it makes the first, or it takes out an empty one
that nobody holds. -/
theorem Move.lookup (h : Move backend m i m') (k : Key) :
    m'.table.lookup k = m.table.lookup k ∨
    (m.table.lookup k = none ∧ m.callers[i]? = some ⟨k, .ready⟩ ∧ m'.table.lookup k = some m.cells.length ∧
      m'.cells.length = m.cells.length + 1 ∧ m'.callers[i]? = some ⟨k, .waiting m.cells.length⟩) ∨
    ∃ n e, m.callers[i]? = some ⟨k, .cleaning n e⟩ ∧ m.table.lookup k = some n ∧ m.holder? n = none ∧
      m.stored? n = none ∧ m'.table.lookup k = none := by
  cases h with
  | stay | fetch | lock | hit | built | failed | panicked | keep => exact .inl rfl
  | @create key caller absent =>
    by_cases hk : k = key
    · subst hk
      exact .inr (.inl ⟨absent, caller, by simp [advance], by simp [advance],
        callers_advance_self (by exact caller) _⟩)
    · exact .inl (by rw [advance, List.lookup_cons, beq_eq_false_iff_ne.2 hk])
  | @remove key n e caller present free empty =>
    have hlookup := lookup_filter_ne m.table key k
    by_cases hk : k = key
    · subst hk
      exact .inr (.inr ⟨n, e, caller, present, free, empty, hlookup.trans (if_pos rfl)⟩)
    · exact .inl (hlookup.trans (if_neg hk))

/-- A call works on the cell that it worked on, or on that of its key in the table. -/
theorem Move.cell? (h : Move backend m i m') (hi : m'.callers[i]? = some ⟨key, stage⟩) (hn : stage.cell? = some n) :
    m'.table.lookup key = some n ∨ ∃ before, m.callers[i]? = some ⟨key, before⟩ ∧ before.cell? = some n := by
  cases h with
  | stay => exact .inr ⟨stage, hi, hn⟩
  | fetch caller present =>
    rw [callers_advance_self caller] at hi
    cases hi
    cases hn
    exact .inl present
  | create caller absent =>
    rw [callers_advance_self (by exact caller)] at hi
    cases hi
    cases hn
    exact .inl (by simp [advance])
  | lock caller | failed caller =>
    rw [callers_advance_self (by exact caller)] at hi
    cases hi
    exact .inr ⟨_, caller, hn⟩
  | hit caller | built caller | panicked caller | keep caller | remove caller =>
    rw [callers_advance_self (by exact caller)] at hi
    cases hi
    cases hn

/-- A key comes to a cell only with a call for it that finds none in the table, and makes this one. -/
theorem Move.uses (h : Move backend m i m') (huses : m'.Uses k n) :
    m.Uses k n ∨
      n = m.cells.length ∧ m'.cells.length = m.cells.length + 1 ∧ m.callers[i]? = some ⟨k, .ready⟩ ∧
        m.table.lookup k = none := by
  have hcases : m'.table.lookup k = some n ∨ m.Uses k n := by
    rcases huses with hlookup | ⟨j, stage, hj, hn⟩
    · exact .inl hlookup
    · by_cases hji : j = i
      · subst hji
        exact (h.cell? hj hn).imp_right fun ⟨before, hbefore, hcell⟩ => .inr ⟨j, before, hbefore, hcell⟩
      · exact .inr (.inr ⟨j, stage, h.callers_of_ne hji ▸ hj, hn⟩)
  rcases hcases with hlookup | hbefore
  · rcases h.lookup k with hsame | ⟨habsent, hready, hnew, hlength, -⟩ | ⟨_, _, -, -, -, -, hgone⟩
    · exact .inl (.inl (hsame ▸ hlookup))
    · rw [hnew] at hlookup
      cases hlookup
      exact .inr ⟨rfl, hlength, hready, habsent⟩
    · rw [hgone] at hlookup
      cases hlookup
  · exact .inl hbefore

/-- What a move does to the locks: nothing, or it takes the free lock that the call waits for, or it gives back the
one that the call holds. -/
theorem Move.holders (h : Move backend m i m') :
    ((∀ n, m'.holder? n = m.holder? n) ∧
      ∀ key n, m'.callers[i]? = some ⟨key, .holding n⟩ ↔ m.callers[i]? = some ⟨key, .holding n⟩) ∨
    (∃ key n, m.callers[i]? = some ⟨key, .waiting n⟩ ∧ m'.callers[i]? = some ⟨key, .holding n⟩ ∧ m.holder? n = none ∧
      ∀ k, m'.holder? k = if k = n then some i else m.holder? k) ∨
    ∃ key n, m.callers[i]? = some ⟨key, .holding n⟩ ∧ (∀ key k, m'.callers[i]? ≠ some ⟨key, .holding k⟩) ∧
      ∀ k, m'.holder? k = if k = n then none else m.holder? k := by
  cases h with
  | stay => exact .inl ⟨fun _ => rfl, fun _ _ => Iff.rfl⟩
  | fetch caller | keep caller | remove caller =>
    refine .inl ⟨holder?_congr rfl, fun key n => ?_⟩
    rw [callers_advance_self (by exact caller), caller]
    simp
  | create caller =>
    refine .inl ⟨holder?_append rfl, fun key n => ?_⟩
    rw [callers_advance_self (by exact caller), caller]
    simp
  | lock caller at_cell free =>
    refine .inr (.inl ⟨_, _, caller, ?_, (holder?_of_getElem? at_cell).trans free, fun k => ?_⟩)
    · rw [callers_advance_self (by exact caller)]
    · rw [holder?_set at_cell rfl]
  | hit caller at_cell | built caller at_cell | failed caller at_cell | panicked caller at_cell =>
    refine .inr (.inr ⟨_, _, caller, fun key k hi => ?_, fun k => ?_⟩)
    · rw [callers_advance_self (by exact caller)] at hi
      cases hi
    · rw [holder?_set at_cell rfl]

/-- What a move does to the entries: it puts a new one into the empty cell that the call holds, which is also what
the call is answered with; or it does nothing, and then the pair, if the call was to build it, could not be built. -/
theorem Move.entries (h : Move backend m i m') :
    (m'.built = m.built ∧ (∀ n, m'.stored? n = m.stored? n) ∧
      ∀ key n, m.callers[i]? = some ⟨key, .holding n⟩ → m.stored? n = none →
        ∃ e s, (build backend m.fallback key s).1 = .error e) ∨
    ∃ key n entry s, m.callers[i]? = some ⟨key, .holding n⟩ ∧ m.stored? n = none ∧
      (build backend m.fallback key s).1 = .ok (entry.theme, entry.grammar, entry.source) ∧
      entry.serial = m.built ∧ m'.built = m.built + 1 ∧ m'.callers[i]? = some ⟨key, .returned (.ok entry)⟩ ∧
      ∀ k, m'.stored? k = if k = n then some entry else m.stored? k := by
  cases h with
  | stay stuck =>
    refine .inl ⟨rfl, fun _ => rfl, fun key n hi => ?_⟩
    rcases stuck key _ hi with ⟨_, heq⟩ | ⟨_, heq, -⟩ <;> cases heq
  | fetch caller | keep caller | remove caller =>
    refine .inl ⟨rfl, stored?_congr rfl, fun key n hi => ?_⟩
    rw [caller] at hi
    cases hi
  | create caller =>
    refine .inl ⟨rfl, stored?_append rfl, fun key n hi => ?_⟩
    rw [caller] at hi
    cases hi
  | lock caller at_cell =>
    refine .inl ⟨rfl, stored?_set_same at_cell rfl rfl, fun key n hi => ?_⟩
    rw [caller] at hi
    cases hi
  | hit caller at_cell filled =>
    refine .inl ⟨rfl, stored?_set_same at_cell rfl rfl, fun key n hi hempty => ?_⟩
    rw [caller] at hi
    cases hi
    rw [stored?_of_getElem? at_cell, filled] at hempty
    cases hempty
  | failed caller at_cell _ pair =>
    refine .inl ⟨rfl, stored?_set_same at_cell rfl rfl, fun key n hi _ => ?_⟩
    rw [caller] at hi
    cases hi
    exact ⟨_, _, congrArg Prod.fst pair⟩
  | panicked caller at_cell empty pair =>
    refine .inl ⟨rfl, stored?_set_same at_cell rfl empty.symm, fun key n hi _ => ?_⟩
    rw [caller] at hi
    cases hi
    exact ⟨_, _, congrArg Prod.fst pair⟩
  | built caller at_cell empty pair =>
    exact .inr ⟨_, _, _, _, caller, (stored?_of_getElem? at_cell).trans empty, congrArg Prod.fst pair, rfl, rfl,
      callers_advance_self (by exact caller) _, fun k => by rw [stored?_set at_cell rfl]⟩

/-- No move takes an entry out of a cell. -/
theorem Move.stored?_of_some {entry : Entry σ} (h : Move backend m i m') (hentry : m.stored? n = some entry) :
    m'.stored? n = some entry := by
  rcases h.entries with ⟨-, hsame, -⟩ | ⟨_, n', _, _, -, hempty, -, -, -, -, hset⟩
  · rw [hsame, hentry]
  · rw [hset, if_neg, hentry]
    rintro rfl
    rw [hempty] at hentry
    cases hentry

/-- **No move takes an entry out of the table.** -/
theorem Move.current?_of_some {entry : Entry σ} (h : Move backend m i m') (hcurrent : m.current? k = some entry) :
    m'.table.lookup k = m.table.lookup k ∧ m'.current? k = some entry := by
  obtain ⟨n, hlookup, hentry⟩ := Option.bind_eq_some_iff.1 hcurrent
  have hsame : m'.table.lookup k = m.table.lookup k := by
    rcases h.lookup k with hsame | ⟨habsent, -⟩ | ⟨n', e, -, hpresent, -, hempty, -⟩
    · exact hsame
    · rw [habsent] at hlookup
      cases hlookup
    · rw [hpresent] at hlookup
      cases hlookup
      rw [hempty] at hentry
      cases hentry
  refine ⟨hsame, ?_⟩
  rw [Contention.current?, hsame, hlookup, Option.bind_some, h.stored?_of_some hentry]

/-- A call is answered with the entry of the cell that it holds. -/
theorem Move.answered {entry : Entry σ} (h : Move backend m i m')
    (hj : m'.callers[j]? = some ⟨key, .returned (.ok entry)⟩) :
    m.callers[j]? = some ⟨key, .returned (.ok entry)⟩ ∨
      j = i ∧ ∃ n, m.callers[i]? = some ⟨key, .holding n⟩ ∧ m'.stored? n = some entry := by
  by_cases hji : j = i
  · subst hji
    cases h with
    | stay => exact .inl hj
    | hit caller at_cell filled =>
      rw [callers_advance_self (by exact caller)] at hj
      cases hj
      exact .inr ⟨rfl, _, caller, by rw [stored?_set at_cell rfl, if_pos rfl, filled]⟩
    | built caller at_cell =>
      rw [callers_advance_self (by exact caller)] at hj
      cases hj
      exact .inr ⟨rfl, _, caller, by rw [stored?_set at_cell rfl, if_pos rfl]⟩
    | fetch caller | create caller | lock caller | failed caller | panicked caller | keep caller | remove caller =>
      rw [callers_advance_self (by exact caller)] at hj
      cases hj
  · exact .inl (h.callers_of_ne hji ▸ hj)

/-- What a move asks of the backend: what a build of the key asks for, if the call holds an empty cell, and nothing
if it does not. -/
theorem Move.session (h : Move backend m i m') :
    (m'.session.loads = m.session.loads ∧ m'.session.missed = m.session.missed ∧
      ∀ key n, m.callers[i]? = some ⟨key, .holding n⟩ → m.stored? n ≠ none) ∨
    ∃ key n state, m.callers[i]? = some ⟨key, .holding n⟩ ∧ m.stored? n = none ∧
      m'.session.loads = m.session.loads ++ backend.loadsFor m.fallback key state ∧
      m'.session.missed = m.session.missed ++ [key] := by
  have hbuild : ∀ key, let s := (build backend m.fallback key (m.session.log (.cacheMiss key.language key.theme))).2
      s.loads = m.session.loads ++ backend.loadsFor m.fallback key m.session.state ∧
        s.missed = m.session.missed ++ [key] := fun key => by
    refine ⟨(build_session ..).1, (missed_build ..).trans ?_⟩
    simp [Session.missed, Session.log]
  cases h with
  | stay stuck =>
    refine .inl ⟨rfl, rfl, fun key n hi => ?_⟩
    rcases stuck key _ hi with ⟨_, heq⟩ | ⟨_, heq, -⟩ <;> cases heq
  | fetch caller | create caller | keep caller | remove caller =>
    refine .inl ⟨rfl, rfl, fun key n hi => ?_⟩
    rw [caller] at hi
    cases hi
  | lock caller _ _ loads missed =>
    refine .inl ⟨loads, missed, fun key n hi => ?_⟩
    rw [caller] at hi
    cases hi
  | hit caller at_cell filled =>
    refine .inl ⟨rfl, by simp [Session.missed, Session.log, advance], fun key n hi => ?_⟩
    rw [caller] at hi
    cases hi
    rw [stored?_of_getElem? at_cell, filled]
    exact Option.some_ne_none _
  | @built key n _ _ _ _ _ caller at_cell empty pair | @failed key n _ _ _ caller at_cell empty pair
  | @panicked key n _ _ caller at_cell empty pair =>
    obtain ⟨hloads, hmissed⟩ := hbuild key
    rw [pair] at hloads hmissed
    exact .inr ⟨key, n, _, caller, (stored?_of_getElem? at_cell).trans empty, hloads, hmissed⟩

end Contention

end Cache

end Highlight
