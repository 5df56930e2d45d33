/-
What calls on a cache keep true of it if the backend answers by the name alone
and no load panics. Cells hold, and calls are told, what the backend would load
for their keys (`Faithful`). An empty cell of the table has a call that works on
it (`Attended`). The table has one cell for a key, which a call has asked for
(`Listed`). A pair that can be had is built when it comes to the table, and not
again (`Logged`).

There is a lemma `move` for each, and each says what it needs of the others.
-/
import Highlight.Proofs.Cache.Fresh
import Highlight.Proofs.Cache.Loyal

namespace Highlight

/-- No load panics. -/
structure Backend.Calm (backend : Backend β σ) : Prop where
  theme (id : String) (s : β) : (backend.loadTheme id s).1 ≠ .error .panic
  grammar (id : String) (s : β) : (backend.loadGrammar id s).1 ≠ .error .panic

/-- There is a pair for the key. -/
def Backend.Resolves (backend : Backend β σ) (fallback : String) (key : Cache.Key) (state : β) : Prop :=
  ∃ pair, backend.pairFor fallback key state = .ok pair

theorem Backend.Calm.grammarFor_ne {backend : Backend β σ} (hcalm : backend.Calm) (fallback language : String)
    (state : β) : backend.grammarFor fallback language state ≠ .error .panic := by
  unfold grammarFor
  have hlanguage := hcalm.grammar language state
  have hfallback := hcalm.grammar fallback state
  generalize (backend.loadGrammar language state).1 = answer at hlanguage
  generalize (backend.loadGrammar fallback state).1 = answer' at hfallback
  rcases answer with (e | _) | _ | grammar
  case error.panic => exact absurd rfl hlanguage
  case ok.some => simp
  case error.error | ok.none =>
    dsimp only
    split
    · simp
    · rcases answer' with (e | _) | _ | grammar
      case error.panic => exact absurd rfl hfallback
      case error.error | ok.none | ok.some => simp

theorem Backend.Calm.pairFor_ne {backend : Backend β σ} (hcalm : backend.Calm) (fallback : String) (key : Cache.Key)
    (state : β) : backend.pairFor fallback key state ≠ .error .panic := by
  unfold pairFor
  have htheme := hcalm.theme key.theme state
  have hgrammar := hcalm.grammarFor_ne fallback key.language state
  generalize (backend.loadTheme key.theme state).1 = answer at htheme
  generalize backend.grammarFor fallback key.language state = answer' at hgrammar
  rcases answer with (e | _) | theme
  case error.error => simp
  case error.panic => exact absurd rfl htheme
  case ok =>
    rcases answer' with (e | _) | pair
    case error.panic => exact absurd rfl hgrammar
    case error.error | ok => simp [Except.map]

theorem Backend.Stable.loadsFor_eq {backend : Backend β σ} (hstable : backend.Stable) (fallback : String)
    (key : Cache.Key) (s t : β) : backend.loadsFor fallback key s = backend.loadsFor fallback key t := by
  have hgrammar : ∀ s t, backend.grammarLoads fallback key.language s = backend.grammarLoads fallback key.language t :=
    fun s t => by rw [grammarLoads, grammarLoads, hstable.grammar key.language s t]
  have htheme := hstable.theme key.theme s t
  unfold loadsFor
  generalize backend.loadTheme key.theme s = answer at htheme
  generalize backend.loadTheme key.theme t = answer' at htheme
  obtain ⟨result, s'⟩ := answer
  obtain ⟨result', t'⟩ := answer'
  cases htheme
  cases result with
  | error e => rfl
  | ok theme => exact congrArg _ (hgrammar s' t')

namespace Cache

/-- What a call has been told, if anything, is this outcome. -/
def Stage.Tells (outcome : Except Failure (Theme × Grammar σ × Source)) : Stage σ → Prop
  | .cleaning _ e => outcome = .error (.error e)
  | .returned answer => answer.map Entry.pair = outcome
  | .ready | .waiting _ | .holding _ => True

namespace Contention

/-- Cells hold, and calls are told, what the backend would load. -/
structure Faithful (backend : Backend β σ) (fallback : String) (state : β) (m : Contention β σ) : Prop where
  fallback_eq : m.fallback = fallback
  stored (key : Key) (n : Nat) (entry : Entry σ) :
    m.Uses key n → m.stored? n = some entry → backend.pairFor fallback key state = .ok entry.pair
  told (i : Nat) (key : Key) (stage : Stage σ) :
    m.callers[i]? = some ⟨key, stage⟩ → stage.Tells (backend.pairFor fallback key state)

/-- Some call works on each empty cell of the table. -/
def Attended (m : Contention β σ) : Prop :=
  ∀ key n, m.table.lookup key = some n → m.stored? n = none →
    ∃ (i : Nat) (stage : Stage σ), m.callers[i]? = some ⟨key, stage⟩ ∧ stage.cell? = some n

/-- The calls are for these keys, and the table has a cell at most for each of them. -/
structure Listed (keys : List Key) (m : Contention β σ) : Prop where
  keys_eq : m.callers.map (·.key) = keys
  requested (key : Key) (n : Nat) : m.table.lookup key = some n → key ∈ keys
  distinct : (m.table.map (·.1)).Nodup

/-- The backend was asked for what the builds logged ask for, and no pair of the table was built twice. -/
structure Logged (backend : Backend β σ) (fallback : String) (state : β) (m : Contention β σ) : Prop where
  loads_eq : m.session.loads = m.session.missed.flatMap (backend.loadsFor fallback · state)
  once (key : Key) :
    backend.Resolves fallback key state → m.session.missed.count key = if (m.current? key).isSome then 1 else 0

variable {backend : Backend β σ} {fallback : String} {state : β} {keys : List Key} {m m' : Contention β σ}
  {i j n : Nat} {key : Key}

theorem stored?_of_le (hn : m.cells.length ≤ n) : m.stored? n = none := by
  rw [stored?, List.getElem?_eq_none hn]
  rfl

/-! ## What calls are told -/

/-- An entry is put into a cell for the one key that the cell serves. -/
theorem Faithful.stored_move (h : m.Faithful backend fallback state) (hsound : m.Sound) (hstable : backend.Stable)
    (hmove : Move backend m i m') (entry : Entry σ) (huses : m'.Uses key n) (hentry : m'.stored? n = some entry) :
    backend.pairFor fallback key state = .ok entry.pair := by
  have hbefore : m.stored? n = some entry → backend.pairFor fallback key state = .ok entry.pair := fun hentry => by
    rcases hmove.uses huses with huses | ⟨rfl, -⟩
    · exact h.stored key n entry huses hentry
    · rw [stored?_of_le (Nat.le_refl _)] at hentry
      cases hentry
  rcases hmove.entries with ⟨-, hsame, -⟩ | ⟨k, n', _, s, hi, -, hbuild, -, -, -, hset⟩
  · rw [hsame] at hentry
    exact hbefore hentry
  · rw [hset] at hentry
    split at hentry
    · rename_i hn
      subst hn
      cases hentry
      have hholds : m.Uses k n := .inr ⟨i, _, hi, rfl⟩
      have hkey : k = key := by
        rcases hmove.uses huses with huses | ⟨hnew, -⟩
        · exact hsound.owned k key n hholds huses
        · exact absurd (hsound.valid k n hholds) (hnew ▸ Nat.lt_irrefl _)
      rw [← hkey, ← build_fst hstable s state, ← h.fallback_eq, hbuild]
      rfl
    · exact hbefore hentry

theorem Faithful.told_move (h : m.Faithful backend fallback state) (hstable : backend.Stable)
    (hmove : Move backend m i m') {stage : Stage σ} (hj : m'.callers[j]? = some ⟨key, stage⟩) :
    stage.Tells (backend.pairFor fallback key state) := by
  by_cases hji : j = i
  · subst hji
    have hbuild : ∀ {k answer session}, build backend m.fallback k (m.session.log (.cacheMiss k.language k.theme)) =
        (answer, session) → backend.pairFor fallback k state = answer := fun hbuild => by
      rw [← build_fst hstable _ state, ← h.fallback_eq, hbuild]
    cases hmove with
    | stay => exact h.told j key stage hj
    | fetch caller | create caller | lock caller =>
      rw [callers_advance_self (by exact caller)] at hj
      cases hj
      trivial
    | hit caller at_cell filled =>
      rw [callers_advance_self (by exact caller)] at hj
      cases hj
      exact (h.stored _ _ _ (.inr ⟨j, _, caller, rfl⟩) ((stored?_of_getElem? at_cell).trans filled)).symm
    | built caller _ _ pair | panicked caller _ _ pair =>
      rw [callers_advance_self (by exact caller)] at hj
      cases hj
      exact (hbuild pair).symm
    | failed caller _ _ pair =>
      rw [callers_advance_self (by exact caller)] at hj
      cases hj
      exact hbuild pair
    | keep caller | remove caller =>
      rw [callers_advance_self (by exact caller)] at hj
      cases hj
      exact (h.told j _ _ caller).symm
  · exact h.told j key stage (hmove.callers_of_ne hji ▸ hj)

theorem Faithful.move (h : m.Faithful backend fallback state) (hsound : m.Sound) (hstable : backend.Stable)
    (hmove : Move backend m i m') : m'.Faithful backend fallback state where
  fallback_eq := hmove.fallback_eq.trans h.fallback_eq
  stored _ _ entry huses hentry := h.stored_move hsound hstable hmove entry huses hentry
  told _ _ _ hj := h.told_move hstable hmove hj

/-- A call for a pair that can be had does not fail. -/
theorem Faithful.unfailed (h : m.Faithful backend fallback state) (hkey : backend.Resolves fallback key state) :
    m.Unfailed key := by
  obtain ⟨pair, hpair⟩ := hkey
  intro j stage hj
  have htold := h.told j key stage hj
  rw [hpair] at htold
  cases stage with
  | ready | waiting | holding => rfl
  | cleaning n e => cases htold
  | returned answer =>
    rcases answer with (e | _) | entry
    · cases htold
    · rfl
    · rfl

theorem Faithful.ne_panic (h : m.Faithful backend fallback state) (hcalm : backend.Calm) (i : Nat) (key : Key) :
    m.callers[i]? ≠ some ⟨key, .returned (.error .panic)⟩ := fun hi =>
  hcalm.pairFor_ne fallback key state (h.told i key _ hi).symm

/-! ## The table -/

/-- A call that works on an empty cell of the table goes on with it, or hands it over to the call that has its lock, if
its move neither fills the cell nor takes it out of the table. -/
theorem Move.attended (hmove : Move backend m i m') (hsound : m.Sound) {key : Key} {stage : Stage σ} {n : Nat}
    (hpanic : ∀ key, m'.callers[i]? ≠ some ⟨key, .returned (.error .panic)⟩)
    (hi : m.callers[i]? = some ⟨key, stage⟩) (hcell : stage.cell? = some n) (hlookup : m.table.lookup key = some n)
    (hkept : m'.table.lookup key = some n) (hbefore : m.stored? n = none) (hempty : m'.stored? n = none) :
    ∃ (j : Nat) (stage' : Stage σ), m'.callers[j]? = some ⟨key, stage'⟩ ∧ stage'.cell? = some n := by
  cases hmove with
  | stay => exact ⟨i, stage, hi, hcell⟩
  | fetch caller | create caller =>
    rw [hi] at caller
    cases caller
    cases hcell
  | lock caller | failed caller =>
    rw [hi] at caller
    cases caller
    exact ⟨i, _, callers_advance_self (by exact hi) _, hcell⟩
  | hit caller at_cell filled =>
    rw [hi] at caller
    cases caller
    cases hcell
    rw [stored?_of_getElem? at_cell, filled] at hbefore
    cases hbefore
  | built caller at_cell =>
    rw [hi] at caller
    cases caller
    cases hcell
    rw [stored?_set at_cell rfl, if_pos rfl] at hempty
    cases hempty
  | panicked caller => exact absurd (callers_advance_self (by exact caller) _) (hpanic _)
  | keep caller used =>
    rw [hi] at caller
    cases caller
    cases hcell
    rcases used hlookup with hheld | hfilled
    · obtain ⟨p, hholder⟩ := Option.isSome_iff_exists.1 hheld
      obtain ⟨k, hp⟩ := (hsound.held n p).1 hholder
      obtain rfl : key = k := hsound.owned key k n (.inl hlookup) (.inr ⟨p, _, hp, rfl⟩)
      have hpi : p ≠ i := by
        rintro rfl
        rw [hi] at hp
        cases hp
      exact ⟨p, _, (callers_advance hi _ p).trans ((if_neg hpi).trans hp), rfl⟩
    · rw [hbefore] at hfilled
      cases hfilled
  | remove caller =>
    rw [hi] at caller
    cases caller
    have hgone := lookup_filter_ne m.table key key
    rw [if_pos rfl] at hgone
    cases hgone.symm.trans hkept

/-- A call that leaves a cell empty takes it out of the table, or another one has its lock. -/
theorem Attended.move (h : m.Attended) (hsound : m.Sound) (hmove : Move backend m i m')
    (hpanic : ∀ key, m'.callers[i]? ≠ some ⟨key, .returned (.error .panic)⟩) : m'.Attended := by
  intro key n hlookup hempty
  have hbefore : m.stored? n = none := by
    cases hstored : m.stored? n with
    | none => rfl
    | some entry =>
      rw [hmove.stored?_of_some hstored] at hempty
      cases hempty
  rcases hmove.lookup key with hsame | ⟨-, -, hnew, -, hi⟩ | ⟨_, _, -, -, -, -, hgone⟩
  · have hlookup' : m.table.lookup key = some n := hsame ▸ hlookup
    obtain ⟨j, stage, hj, hcell⟩ := h key n hlookup' hbefore
    by_cases hji : j = i
    · subst hji
      exact hmove.attended hsound hpanic hj hcell hlookup' hlookup hbefore hempty
    · exact ⟨j, stage, (hmove.callers_of_ne hji).trans hj, hcell⟩
  · rw [hnew] at hlookup
    cases hlookup
    exact ⟨i, _, hi, rfl⟩
  · rw [hgone] at hlookup
    cases hlookup

theorem Listed.move (h : m.Listed keys) (hmove : Move backend m i m') : m'.Listed keys where
  keys_eq := hmove.keys_eq.trans h.keys_eq
  requested key n hlookup := by
    rcases hmove.lookup key with hsame | ⟨-, hi, -⟩ | ⟨_, _, -, -, -, -, hgone⟩
    · exact h.requested key n (hsame ▸ hlookup)
    · rw [← h.keys_eq]
      exact List.mem_map_of_mem (List.mem_of_getElem? hi)
    · rw [hgone] at hlookup
      cases hlookup
  distinct := by
    cases hmove with
    | stay | fetch | lock | hit | built | failed | panicked | keep => exact h.distinct
    | create caller absent =>
      refine List.nodup_cons.2 ⟨fun hmem => ?_, h.distinct⟩
      obtain ⟨⟨k, n⟩, hrow, rfl⟩ := List.mem_map.1 hmem
      rw [lookup_of_mem h.distinct hrow] at absent
      cases absent
    | remove => exact h.distinct.sublist (List.filter_sublist.map _)

/-! ## What is built -/

/-- Unless it builds a pair, a move leaves the entries that the table leads to. -/
theorem Move.current?_eq (h : Move backend m i m') (hsame : ∀ n, m'.stored? n = m.stored? n) (key : Key) :
    m'.current? key = m.current? key := by
  rcases h.lookup key with hlookup | ⟨habsent, -, hnew, -⟩ | ⟨n, _, -, hpresent, -, hempty, hgone⟩
  · rw [current?, current?, hlookup]
    exact Option.bind_congr fun n _ => hsame n
  · rw [current?, current?, hnew, habsent, Option.bind_some, hsame, stored?_of_le (Nat.le_refl _)]
    rfl
  · rw [current?, current?, hgone, hpresent, Option.bind_some, hempty]
    rfl

/-- A move that builds a pair brings it to the cell of its key, and to no other. -/
theorem Move.current?_of_built {entry : Entry σ} (h : Move backend m i m') (hsound : m.Sound)
    (hi : m.callers[i]? = some ⟨key, .holding n⟩) (hset : ∀ k, m'.stored? k = if k = n then some entry else m.stored? k) :
    (m.table.lookup key = some n → m'.current? key = some entry) ∧ ∀ k, k ≠ key → m'.current? k = m.current? k := by
  have htable : ∀ k, m'.table.lookup k = m.table.lookup k := fun k => by
    rcases h.lookup k with hsame | ⟨-, hready, -⟩ | ⟨_, _, hcleaning, -⟩
    · exact hsame
    · rw [hi] at hready
      cases hready
    · rw [hi] at hcleaning
      cases hcleaning
  refine ⟨fun hlookup => ?_, fun k hk => ?_⟩
  · rw [current?, htable, hlookup, Option.bind_some, hset, if_pos rfl]
  · rw [current?, current?, htable]
    refine Option.bind_congr fun n' hn' => ?_
    rw [hset, if_neg]
    rintro rfl
    exact hk (hsound.owned k key n' (.inl hn') (.inr ⟨i, _, hi, rfl⟩))

theorem Logged.move (h : m.Logged backend fallback state) (hsound : m.Sound)
    (hfaithful : m.Faithful backend fallback state) (hstable : backend.Stable)
    (hloyal : ∀ key, backend.Resolves fallback key state → m.Loyal key) (hmove : Move backend m i m') :
    m'.Logged backend fallback state := by
  rcases hmove.session with ⟨hloads, hmissed, hnone⟩ | ⟨key, n, s, hi, hempty, hloads, hmissed⟩
  · have hsame : ∀ n, m'.stored? n = m.stored? n := by
      rcases hmove.entries with ⟨-, hsame, -⟩ | ⟨key, n, _, _, hi, hempty, -⟩
      · exact hsame
      · exact absurd hempty (hnone key n hi)
    refine ⟨by rw [hloads, hmissed, h.loads_eq], fun key hkey => ?_⟩
    rw [hmissed, h.once key hkey, hmove.current?_eq hsame]
  · refine ⟨?_, fun k hk => ?_⟩
    · rw [hloads, hmissed, List.flatMap_append, h.loads_eq, hfaithful.fallback_eq, hstable.loadsFor_eq fallback key s state]
      simp
    · rw [hmissed, List.count_append, h.once k hk]
      rcases hmove.entries with ⟨-, hsame, hfails⟩ | ⟨_, _, entry, _, hi', -, -, -, -, -, hset⟩
      · -- The pair that could not be built is not that of `k`.
        obtain ⟨e, s', he⟩ := hfails key n hi hempty
        have hne : key ≠ k := by
          rintro rfl
          obtain ⟨pair, hpair⟩ := hk
          rw [← build_fst hstable s' state, ← hfaithful.fallback_eq, he] at hpair
          cases hpair
        rw [hmove.current?_eq hsame, List.count_eq_zero.2 (by simpa using Ne.symm hne), Nat.add_zero]
      · rw [hi] at hi'
        cases hi'
        obtain ⟨hown, hothers⟩ := hmove.current?_of_built hsound hi hset
        by_cases hkey : k = key
        · subst hkey
          have hlookup := (hloyal k hk).cell i _ n hi rfl
          have hbefore : m.current? k = none := by rw [current?, hlookup, Option.bind_some, hempty]
          rw [hown hlookup, hbefore, List.count_singleton_self]
          rfl
        · rw [hothers k hkey, List.count_eq_zero.2 (by simpa using hkey), Nat.add_zero]

end Contention

end Cache

end Highlight
