/-
What a call for a pair can do. A key that is cached is answered from the cache,
which stays as it is (`resolve_of_get?_eq_some`). For any other key the pair is
built, and then cached (`resolve_of_built`); if that fails, what is cached under
each key is what was cached before (`resolve_of_not_built`).

`build_session`: a build asks for the theme, then for the grammar, then for that
of the fallback language, each only if the answer before makes it do so.
`build_loaded`: it gives what these loads come to (`Backend.loaded`).
-/
import Highlight.Cache
import Highlight.Proofs.Lists

namespace Highlight

/-- The loads of a grammar, by what the backend answers to the first of them. -/
def Backend.grammarLoads (backend : Backend β σ) (fallback language : String) (state : β) : List Load :=
  match (backend.loadGrammar language state).1 with
  | .ok (some _) | .error .panic => [.grammar language]
  | .ok none | .error (.error _) =>
    if language = fallback then [.grammar language] else [.grammar language, .grammar fallback]

/-- The loads of a pair that is not cached: its theme, and then its grammar if the theme was there. -/
def Backend.loadsFor (backend : Backend β σ) (fallback : String) (key : Cache.Key) (state : β) : List Load :=
  match backend.loadTheme key.theme state with
  | (.error _, _) => [.theme key.theme]
  | (.ok _, state) => .theme key.theme :: backend.grammarLoads fallback key.language state

/-- What the loads of a grammar come to, and the state they leave: each load is answered in the state that
the one before it left. -/
def Backend.loadedGrammar (backend : Backend β σ) (fallback language : String) (state : β) :
    Except Failure (Grammar σ × Source) × β :=
  match backend.loadGrammar language state with
  | (.ok (some grammar), state) => (.ok (grammar, .requested), state)
  | (.error .panic, state) => (.error .panic, state)
  | (.ok none, state) | (.error (.error _), state) =>
    if language = fallback then (.error (.error (.grammarUnavailable language fallback)), state)
    else match backend.loadGrammar fallback state with
      | (.ok (some grammar), state) => (.ok (grammar, .fallback), state)
      | (.ok none, state) => (.error (.error (.grammarUnavailable language fallback)), state)
      | (.error e, state) => (.error e, state)

/-- What the loads of a pair come to, and the state they leave. -/
def Backend.loaded (backend : Backend β σ) (fallback : String) (key : Cache.Key) (state : β) :
    Except Failure (Theme × Grammar σ × Source) × β :=
  match backend.loadTheme key.theme state with
  | (.error e, state) => (.error e, state)
  | (.ok theme, state) => (backend.loadedGrammar fallback key.language state).map (·.map (theme, ·)) id

namespace Cache

/-! ## The table of slots -/

theorem lookup_erase (c : Cache σ) (key k : Key) :
    (c.erase key).slots.lookup k = if k = key then none else c.slots.lookup k :=
  lookup_filter_ne c.slots key k

theorem get?_erase (c : Cache σ) (key k : Key) : (c.erase key).get? k = if k = key then none else c.get? k := by
  rw [get?, slot, lookup_erase]
  split <;> rfl

theorem get?_put (c : Cache σ) (key k : Key) (s : Slot σ) :
    (c.put key s).get? k = if k = key then s.entry else c.get? k := by
  rw [get?, slot, put, List.lookup_cons]
  by_cases hk : k = key
  · simp [hk]
  · simp only [beq_eq_false_iff_ne.2 hk, if_neg hk, lookup_erase]
    rfl

/-- No key has two slots. -/
def Distinct (c : Cache σ) : Prop := (c.slots.map (·.1)).Nodup

theorem Distinct.erase {c : Cache σ} (hd : c.Distinct) (key : Key) : (c.erase key).Distinct := by
  unfold Distinct Cache.erase
  exact hd.sublist (List.filter_sublist.map _)

theorem Distinct.put {c : Cache σ} (hd : c.Distinct) (key : Key) (s : Slot σ) : (c.put key s).Distinct := by
  unfold Distinct Cache.put
  rw [List.map_cons, List.nodup_cons]
  refine ⟨fun hmem => ?_, hd.erase key⟩
  obtain ⟨entry, hentry, hkey⟩ := List.mem_map.1 hmem
  have := (List.mem_filter.1 hentry).2
  simp [hkey] at this

theorem Distinct.get?_of_mem {c : Cache σ} (hd : c.Distinct) {key : Key} {s : Slot σ} (hmem : (key, s) ∈ c.slots) :
    c.get? key = s.entry := by
  rw [get?, slot, lookup_of_mem hd hmem, Option.getD_some]

theorem Distinct.size_erase {c : Cache σ} (hd : c.Distinct) {key : Key} (hnone : c.get? key = none) :
    (c.erase key).size = c.size := by
  unfold size Cache.erase
  rw [List.countP_filter]
  refine List.countP_congr fun (k, s) hmem => ?_
  rw [Bool.and_eq_true, and_iff_left_iff_imp]
  intro hsome
  have hk : k ≠ key := by
    rintro rfl
    rw [← hd.get?_of_mem hmem, hnone] at hsome
    simp at hsome
  simpa using hk

theorem Distinct.size_put {c : Cache σ} (hd : c.Distinct) {key : Key} (hnone : c.get? key = none) (s : Slot σ) :
    (c.put key s).size = c.size + if s.entry.isSome then 1 else 0 := by
  have hsize : (c.put key s).size = (c.erase key).size + if s.entry.isSome then 1 else 0 :=
    List.countP_cons
  rw [hsize, hd.size_erase hnone]

/-! ## Building a pair -/

/-- The second half of `loadWithFallback`: what is done for a language without a grammar of its own. -/
def loadFallback (backend : Backend β σ) (language fallback : String) (s : Session β) :
    Except Failure (Grammar σ × Source) × Session β :=
  if language = fallback then (.error (.error (.grammarUnavailable language fallback)), s)
  else match s.loadGrammar backend fallback with
    | (.ok (some grammar), s) => (.ok (grammar, .fallback), s)
    | (.ok none, s) => (.error (.error (.grammarUnavailable language fallback)), s)
    | (.error e, s) => (.error e, s)

theorem loadWithFallback_eq (backend : Backend β σ) (language fallback : String) (s : Session β) :
    loadWithFallback backend language fallback s =
      match s.loadGrammar backend language with
      | (.ok (some grammar), s) => (.ok (grammar, .requested), s)
      | (.ok none, s) => loadFallback backend language fallback (s.log (.grammarUnregistered language fallback))
      | (.error (.error e), s) => loadFallback backend language fallback (s.log (.grammarBroken language fallback e))
      | (.error .panic, s) => (.error .panic, s) := rfl

theorem loadFallback_session (backend : Backend β σ) (language fallback : String) (s : Session β) :
    (loadFallback backend language fallback s).2.events = s.events ∧
    (loadFallback backend language fallback s).2.loads =
      s.loads ++ if language = fallback then [] else [.grammar fallback] := by
  unfold loadFallback Session.loadGrammar
  by_cases hfallback : language = fallback
  · simp [hfallback]
  · rw [if_neg hfallback, if_neg hfallback]
    rcases backend.loadGrammar fallback s.state with ⟨_ | _ | _, _⟩ <;> exact ⟨rfl, rfl⟩

/-- What loading a grammar logs are warnings. -/
theorem loadWithFallback_session (backend : Backend β σ) (language fallback : String) (s : Session β) :
    (loadWithFallback backend language fallback s).2.loads =
      s.loads ++ backend.grammarLoads fallback language s.state ∧
    ∃ warnings : List Event, (loadWithFallback backend language fallback s).2.events = s.events ++ warnings ∧
      ∀ w ∈ warnings, w.level = .warn := by
  rw [loadWithFallback_eq]
  unfold Session.loadGrammar Backend.grammarLoads
  rcases backend.loadGrammar language s.state with ⟨(e | _) | _ | grammar, state⟩
  case error.panic | ok.some => exact ⟨rfl, [], (List.append_nil _).symm, by simp⟩
  case error.error | ok.none =>
    dsimp only
    generalize hlogged : Session.log _ _ = logged
    obtain ⟨hevents, hloads⟩ := loadFallback_session backend language fallback logged
    rw [hevents, hloads, ← hlogged]
    refine ⟨?_, [_], rfl, by simp [Event.level]⟩
    by_cases hfallback : language = fallback <;> simp [hfallback, Session.log]

/-- A build asks for what `Backend.loadsFor` says. What it logs are warnings. -/
theorem build_session (backend : Backend β σ) (fallback : String) (key : Key) (s : Session β) :
    (build backend fallback key s).2.loads = s.loads ++ backend.loadsFor fallback key s.state ∧
    ∃ warnings : List Event, (build backend fallback key s).2.events = s.events ++ warnings ∧
      ∀ w ∈ warnings, w.level = .warn := by
  unfold build Session.loadTheme Backend.loadsFor
  rcases backend.loadTheme key.theme s.state with ⟨e | theme, state⟩
  · exact ⟨rfl, [], (List.append_nil _).symm, by simp⟩
  · dsimp only
    generalize hasked : Session.mk state _ _ = asked
    obtain ⟨hloads, warnings, hevents, hwarnings⟩ := loadWithFallback_session backend key.language fallback asked
    have hloads' : (loadWithFallback backend key.language fallback asked).2.loads =
        s.loads ++ .theme key.theme :: backend.grammarLoads fallback key.language state := by
      rw [hloads, ← hasked, List.append_assoc, List.singleton_append]
    have hevents' : (loadWithFallback backend key.language fallback asked).2.events = s.events ++ warnings := by
      rw [hevents, ← hasked]
    rcases hgrammar : loadWithFallback backend key.language fallback asked with ⟨_ | _, s'⟩ <;>
      rw [hgrammar] at hloads' hevents' <;> exact ⟨hloads', warnings, hevents', hwarnings⟩

theorem loadFallback_loaded (backend : Backend β σ) (language fallback : String) (s : Session β) :
    (loadFallback backend language fallback s).map id Session.state =
      if language = fallback then (.error (.error (.grammarUnavailable language fallback)), s.state)
      else match backend.loadGrammar fallback s.state with
        | (.ok (some grammar), state) => (.ok (grammar, .fallback), state)
        | (.ok none, state) => (.error (.error (.grammarUnavailable language fallback)), state)
        | (.error e, state) => (.error e, state) := by
  unfold loadFallback Session.loadGrammar
  split
  · rfl
  · rcases backend.loadGrammar fallback s.state with ⟨_ | _ | _, _⟩ <;> rfl

theorem loadWithFallback_loaded (backend : Backend β σ) (language fallback : String) (s : Session β) :
    (loadWithFallback backend language fallback s).map id Session.state =
      backend.loadedGrammar fallback language s.state := by
  rw [loadWithFallback_eq]
  unfold Session.loadGrammar Backend.loadedGrammar
  rcases backend.loadGrammar language s.state with ⟨(e | _) | _ | grammar, state⟩
  case error.panic | ok.some => rfl
  case error.error | ok.none => exact loadFallback_loaded backend language fallback _

/-- A build gives what its loads come to, and leaves the backend in their state. -/
theorem build_loaded (backend : Backend β σ) (fallback : String) (key : Key) (s : Session β) :
    (build backend fallback key s).map id Session.state = backend.loaded fallback key s.state := by
  unfold build Session.loadTheme Backend.loaded
  rcases backend.loadTheme key.theme s.state with ⟨e | theme, state⟩
  · rfl
  · dsimp only
    generalize hasked : Session.mk state _ _ = asked
    have hstate : asked.state = state := by rw [← hasked]
    rw [← hstate, ← loadWithFallback_loaded]
    rcases loadWithFallback backend key.language fallback asked with ⟨_ | _, _⟩ <;> rfl

/-! ## Resolving a key -/

/-- The session once the slot of a key is open. -/
def opened (c : Cache σ) (key : Key) (s : Session β) : Session β :=
  if (c.slot key).interrupted then s.log .slotRecovered else s

/-- Opening a slot asks for nothing, and logs warnings at most. -/
theorem opened_session (c : Cache σ) (key : Key) (s : Session β) :
    (c.opened key s).loads = s.loads ∧ (c.opened key s).state = s.state ∧
    ∃ warnings : List Event, (c.opened key s).events = s.events ++ warnings ∧ ∀ w ∈ warnings, w.level = .warn := by
  unfold opened
  split
  · exact ⟨rfl, rfl, [.slotRecovered], rfl, by simp [Event.level]⟩
  · exact ⟨rfl, rfl, [], (List.append_nil _).symm, by simp⟩

/-- What a call for a key that is not cached builds. -/
def built? (c : Cache σ) (backend : Backend β σ) (key : Key) (s : Session β) :
    Except Failure (Theme × Grammar σ × Source) × Session β :=
  build backend c.fallback key ((c.opened key s).log (.cacheMiss key.language key.theme))

theorem built?_loaded (c : Cache σ) (backend : Backend β σ) (key : Key) (s : Session β) :
    (c.built? backend key s).map id Session.state = backend.loaded c.fallback key s.state := by
  rw [built?, build_loaded, Session.log, (c.opened_session key s).2.1]

variable {c : Cache σ} {key : Key}

theorem resolve_of_get?_eq_some {entry : Entry σ} (h : c.get? key = some entry) (backend : Backend β σ) (s : Session β) :
    c.resolve backend key s = (.ok entry, c, (c.opened key s).log (.cacheHit key.language key.theme)) := by
  rw [get?] at h
  simp only [resolve, h, opened]

/-- A call for a key that is cached asks for nothing, and logs a cache hit. -/
theorem resolve_session_of_get?_eq_some {entry : Entry σ} (h : c.get? key = some entry) (backend : Backend β σ)
    (s : Session β) :
    (c.resolve backend key s).2.2.loads = s.loads ∧ (c.resolve backend key s).2.2.state = s.state ∧
    ∃ events : List Event, (c.resolve backend key s).2.2.events = s.events ++ events ∧
      .cacheHit key.language key.theme ∈ events := by
  rw [resolve_of_get?_eq_some h]
  obtain ⟨hloads, hstate, recovered, hopened, -⟩ := c.opened_session key s
  refine ⟨hloads, hstate, recovered ++ [.cacheHit key.language key.theme], ?_, by simp⟩
  rw [Session.log, hopened, List.append_assoc]

/-- A pair that can be built is cached under its key. -/
theorem resolve_of_built {backend : Backend β σ} {s s' : Session β} {theme : Theme} {grammar : Grammar σ}
    {source : Source} (h : c.get? key = none) (hbuild : c.built? backend key s = (.ok (theme, grammar, source), s')) :
    ∃ after : Cache σ, c.resolve backend key s = (.ok ⟨c.built, grammar, theme, source⟩, after, s') ∧
      after.fallback = c.fallback ∧ after.built = c.built + 1 ∧
      (∀ k, after.get? k = if k = key then some ⟨c.built, grammar, theme, source⟩ else c.get? k) ∧
      (c.Distinct → after.Distinct ∧ after.size = c.size + 1) := by
  rw [built?, opened] at hbuild
  unfold resolve
  rw [get?] at h
  simp only [h, hbuild]
  refine ⟨_, rfl, rfl, rfl, fun k => get?_put c key k _, fun hd => ⟨hd.put key _, ?_⟩⟩
  exact hd.size_put h _

/-- A pair that cannot be built leaves what is cached as it was. -/
theorem resolve_of_not_built {backend : Backend β σ} {s s' : Session β} {e : Failure} (h : c.get? key = none)
    (hbuild : c.built? backend key s = (.error e, s')) :
    ∃ after : Cache σ, c.resolve backend key s = (.error e, after, s') ∧
      after.fallback = c.fallback ∧ after.built = c.built ∧ (∀ k, after.get? k = c.get? k) ∧
      (c.Distinct → after.Distinct ∧ after.size = c.size) := by
  -- Erasing the slot or leaving an empty one comes to the same, since the key was not cached.
  have hkeeps : ∀ k, (if k = key then none else c.get? k) = c.get? k := by
    intro k
    split
    · rename_i hk
      rw [hk, h]
    · rfl
  rw [built?, opened] at hbuild
  unfold resolve
  have hentry := h
  rw [get?] at hentry
  simp only [hentry, hbuild]
  cases e with
  | error e =>
    refine ⟨_, rfl, rfl, rfl, fun k => ?_, fun hd => ⟨hd.erase key, hd.size_erase h⟩⟩
    rw [get?_erase, hkeeps]
  | panic =>
    refine ⟨_, rfl, rfl, rfl, fun k => ?_, fun hd => ⟨hd.put key _, hd.size_put h _⟩⟩
    rw [get?_put, hkeeps]

/-- A key that is answered with a pair is cached with it from then on. -/
theorem get?_of_resolve {backend : Backend β σ} {s : Session β} {entry : Entry σ}
    (h : (c.resolve backend key s).1 = .ok entry) : (c.resolve backend key s).2.1.get? key = some entry := by
  cases hget : c.get? key with
  | some entry' =>
    rw [resolve_of_get?_eq_some hget] at h ⊢
    cases h
    exact hget
  | none =>
    rcases hbuild : c.built? backend key s with ⟨e | ⟨theme, grammar, source⟩, s'⟩
    · obtain ⟨after, hresolve, -⟩ := resolve_of_not_built hget hbuild
      rw [hresolve] at h
      cases h
    · obtain ⟨after, hresolve, -, -, hput, -⟩ := resolve_of_built hget hbuild
      rw [hresolve] at h ⊢
      cases h
      rw [hput, if_pos rfl]

theorem session_of_get?_eq_none (h : c.get? key = none) (backend : Backend β σ) (s : Session β) :
    (c.resolve backend key s).2.2 = (c.built? backend key s).2 := by
  rcases hbuild : c.built? backend key s with ⟨e | ⟨theme, grammar, source⟩, s'⟩
  · obtain ⟨after, hresolve, -⟩ := resolve_of_not_built h hbuild
    rw [hresolve]
  · obtain ⟨after, hresolve, -⟩ := resolve_of_built h hbuild
    rw [hresolve]

/-- A call for a key that is not cached asks for what `Backend.loadsFor` says. What it logs is that the key is missing, with
warnings before and after. -/
theorem session_of_miss (h : c.get? key = none) (backend : Backend β σ) (s : Session β) :
    (c.resolve backend key s).2.2.loads = s.loads ++ backend.loadsFor c.fallback key s.state ∧
    ∃ before after : List Event, (c.resolve backend key s).2.2.events =
        s.events ++ (before ++ .cacheMiss key.language key.theme :: after) ∧
      (∀ w ∈ before, w.level = .warn) ∧ ∀ w ∈ after, w.level = .warn := by
  obtain ⟨hopenedLoads, hopenedState, recovered, hopened, hrecovered⟩ := c.opened_session key s
  obtain ⟨hloads, warnings, hevents, hwarnings⟩ :=
    build_session backend c.fallback key ((c.opened key s).log (.cacheMiss key.language key.theme))
  rw [session_of_get?_eq_none h, built?]
  refine ⟨?_, recovered, warnings, ?_, hrecovered, hwarnings⟩
  · rw [hloads, Session.log, hopenedLoads, hopenedState]
  · rw [hevents, Session.log, hopened, List.append_assoc, List.append_assoc, List.singleton_append]

/-- A call for a key that is not cached logs no cache hit. -/
theorem resolve_session_of_get?_eq_none (h : c.get? key = none) (backend : Backend β σ) (s : Session β) :
    (c.resolve backend key s).2.2.loads = s.loads ++ backend.loadsFor c.fallback key s.state ∧
    ∃ events : List Event, (c.resolve backend key s).2.2.events = s.events ++ events ∧
      ∀ l t, .cacheHit l t ∉ events := by
  obtain ⟨hloads, before, after, hevents, hbefore, hafter⟩ := session_of_miss h backend s
  refine ⟨hloads, _, hevents, fun l t hmem => ?_⟩
  rcases List.mem_append.1 hmem with hmem | hmem
  · cases hbefore _ hmem
  · rcases List.mem_cons.1 hmem with heq | hmem
    · cases heq
    · cases hafter _ hmem

/-- Resolving a key logs nothing at the level of `info`. -/
theorem exists_events_of_resolve (c : Cache σ) (backend : Backend β σ) (key : Key) (s : Session β) :
    ∃ opening : List Event, (c.resolve backend key s).2.2.events = s.events ++ opening ∧
      ∀ event ∈ opening, event.level ≠ .info := by
  cases hget : c.get? key with
  | some entry =>
    obtain ⟨-, -, recovered, hopened, hrecovered⟩ := c.opened_session key s
    refine ⟨recovered ++ [.cacheHit key.language key.theme], ?_, fun event hevent => ?_⟩
    · rw [resolve_of_get?_eq_some hget, Session.log, hopened, List.append_assoc]
    · rcases List.mem_append.1 hevent with hevent | hevent
      · simp [hrecovered event hevent]
      · simp [List.mem_singleton.1 hevent, Event.level]
  | none =>
    obtain ⟨-, before, after, hevents, hbefore, hafter⟩ := session_of_miss hget backend s
    refine ⟨_, hevents, fun event hevent => ?_⟩
    rcases List.mem_append.1 hevent with hevent | hevent
    · simp [hbefore event hevent]
    · rcases List.mem_cons.1 hevent with rfl | hevent
      · simp [Event.level]
      · simp [hafter event hevent]

end Cache

end Highlight
