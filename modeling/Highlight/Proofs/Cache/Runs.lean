/-
The cache over whole runs. A `History` holds the calls made of one cache, from
the first on, with what each was answered; the backend may answer every load
anew. `History.Consistent` says what is true after any run: the cache holds, for
each key, the pair that was the first answer for this key, and nothing else.
A call keeps this (`Consistent.call`), and so does a run (`consistent_run`). A
call for a key without a pair is answered with what its loads come to
(`Consistent.answer_of_miss`), and what is answered is cached from then on
(`Consistent.get?_call_of_ok`).
-/
import Highlight.Proofs.Cache.Resolve
import Highlight.Proofs.Lists

namespace Highlight.Cache

/-- The calls made of a cache so far, with their answers, and what they left behind. -/
structure History (β σ : Type) where
  cache : Cache σ
  session : Session β
  answers : List (Key × Except Failure (Entry σ)) := []

namespace History

def call (backend : Backend β σ) (h : History β σ) (key : Key) : History β σ :=
  let (answer, cache, session) := h.cache.resolve backend key h.session
  { cache, session, answers := h.answers ++ [(key, answer)] }

/-- Calls an empty cache for one key after the other. -/
def run (backend : Backend β σ) (fallback : String) (session : Session β) (keys : List Key) : History β σ :=
  keys.foldl (call backend) { cache := { fallback }, session }

/-- The first pair that a call for a key was answered with. -/
def first? (h : History β σ) (key : Key) : Option (Entry σ) :=
  h.answers.findSome? fun (k, answer) => if k = key then answer.toOption else none

/-- The keys that calls were answered with a pair for, one for each such call. -/
def granted (h : History β σ) : List Key :=
  h.answers.filterMap fun (k, answer) => answer.toOption.map fun _ => k

/-- The different keys that a call was answered with a pair for. -/
def resolved (h : History β σ) : List Key := h.granted.eraseDups

variable {backend : Backend β σ} {fallback : String} {h : History β σ} {key k : Key}

/-- What a call is answered with. -/
def answer (backend : Backend β σ) (h : History β σ) (key : Key) : Except Failure (Entry σ) :=
  (h.cache.resolve backend key h.session).1

theorem answers_call : (h.call backend key).answers = h.answers ++ [(key, h.answer backend key)] := rfl

theorem first?_call :
    (h.call backend key).first? k =
      (h.first? k).or (if key = k then (h.answer backend key).toOption else none) := by
  unfold first?
  rw [answers_call, List.findSome?_append]
  congr 1
  simp

/-- The first pair for a key stays the first, and an error is none. -/
theorem first?_call_of_or {answer : Option (Entry σ)} (hanswer : (h.answer backend key).toOption = answer)
    (hsame : answer = none ∨ answer = h.first? key) : (h.call backend key).first? k = h.first? k := by
  rw [first?_call, hanswer]
  split
  · rename_i hk
    subst hk
    rcases hsame with rfl | rfl
    · exact Option.or_none
    · exact Option.or_self
  · exact Option.or_none

theorem granted_call :
    (h.call backend key).granted = h.granted ++ ((h.answer backend key).toOption.map fun _ => key).toList := by
  unfold granted
  rw [answers_call, List.filterMap_append]
  cases h.answer backend key <;> rfl

theorem mem_granted : key ∈ h.granted ↔ ∃ entry, (key, .ok entry) ∈ h.answers := by
  unfold granted
  rw [List.mem_filterMap]
  refine ⟨?_, ?_⟩
  · rintro ⟨⟨k, e | entry⟩, hmem, heq⟩
    · cases heq
    · cases heq
      exact ⟨entry, hmem⟩
  · rintro ⟨entry, hmem⟩
    exact ⟨_, hmem, rfl⟩

theorem isSome_first?_iff : (h.first? key).isSome ↔ key ∈ h.granted := by
  rw [mem_granted, first?, List.findSome?_isSome_iff]
  refine ⟨?_, ?_⟩
  · rintro ⟨⟨k, e | entry⟩, hmem, hsome⟩
    · simp [Except.toOption] at hsome
    · dsimp only at hsome
      split at hsome
      · rename_i hk
        exact ⟨entry, hk ▸ hmem⟩
      · cases hsome
  · rintro ⟨entry, hmem⟩
    exact ⟨_, hmem, by simp [Except.toOption]⟩

theorem resolved_call_of_error {e : Failure} (he : h.answer backend key = .error e) :
    (h.call backend key).resolved = h.resolved := by
  unfold resolved
  rw [granted_call, he]
  simp [Except.toOption]

theorem length_resolved_call_of_ok {entry : Entry σ} (hok : h.answer backend key = .ok entry) :
    (h.call backend key).resolved.length = h.resolved.length + if (h.first? key).isSome then 0 else 1 := by
  unfold resolved
  rw [granted_call, hok]
  simp only [Except.toOption, Option.map_some, Option.toList_some, eraseDups_append_singleton, List.length_append]
  by_cases hmem : key ∈ h.granted
  · rw [if_pos hmem, if_pos (isSome_first?_iff.2 hmem)]
    rfl
  · rw [if_neg hmem, if_neg fun hsome => hmem (isSome_first?_iff.1 hsome)]
    rfl

theorem length_resolved_le_call : h.resolved.length ≤ (h.call backend key).resolved.length := by
  cases hanswer : h.answer backend key with
  | ok entry =>
    rw [length_resolved_call_of_ok hanswer]
    exact Nat.le_add_right _ _
  | error e => exact Nat.le_of_eq (by rw [resolved_call_of_error hanswer])

/-- What the calls of a run, from an empty cache on, leave behind. -/
structure Consistent (fallback : String) (h : History β σ) : Prop where
  fallback_eq : h.cache.fallback = fallback
  distinct : h.cache.Distinct
  /-- For each key the cache holds the first pair that a call was answered with. -/
  get?_eq (key : Key) : h.cache.get? key = h.first? key
  /-- No later call was answered with another. -/
  answered (key : Key) (entry : Entry σ) : (key, .ok entry) ∈ h.answers → h.first? key = some entry
  serial_lt (key : Key) (entry : Entry σ) : h.first? key = some entry → entry.serial < h.cache.built
  size_eq : h.cache.size = h.resolved.length

namespace Consistent

theorem empty (fallback : String) (session : Session β) :
    ({ cache := { fallback }, session } : History β σ).Consistent fallback where
  fallback_eq := rfl
  distinct := List.nodup_nil
  get?_eq _ := rfl
  answered _ _ hmem := by cases hmem
  serial_lt _ _ hfirst := by cases hfirst
  size_eq := rfl

/-- A call for a resolved key is answered with the first pair again. -/
theorem answer_of_first? (hc : h.Consistent fallback) (backend : Backend β σ) {entry : Entry σ}
    (hfirst : h.first? key = some entry) : h.answer backend key = .ok entry ∧ (h.call backend key).cache = h.cache := by
  rw [← hc.get?_eq] at hfirst
  have hresolve := resolve_of_get?_eq_some hfirst backend h.session
  unfold answer History.call
  rw [hresolve]
  exact ⟨rfl, rfl⟩

theorem call_of_first? (hc : h.Consistent fallback) {entry : Entry σ} (hfirst : h.first? key = some entry) :
    (h.call backend key).Consistent fallback := by
  obtain ⟨hanswer, hcache⟩ := hc.answer_of_first? backend hfirst
  have hfirst' : ∀ k, (h.call backend key).first? k = h.first? k :=
    fun k => first?_call_of_or (congrArg Except.toOption hanswer) (.inr hfirst.symm)
  refine ⟨?_, ?_, fun k => ?_, fun k entry' hmem => ?_, fun k entry' hk => ?_, ?_⟩
  · rw [hcache, hc.fallback_eq]
  · rw [hcache]
    exact hc.distinct
  · rw [hcache, hfirst', hc.get?_eq]
  · rw [answers_call, hanswer, List.mem_append, List.mem_singleton] at hmem
    rw [hfirst']
    rcases hmem with hmem | heq
    · exact hc.answered k entry' hmem
    · cases heq
      exact hfirst
  · rw [hfirst'] at hk
    rw [hcache]
    exact hc.serial_lt k entry' hk
  · rw [hcache, length_resolved_call_of_ok hanswer, hfirst, hc.size_eq]
    rfl

/-- A call that fails leaves the cache with what it had. -/
theorem call_of_not_built (hc : h.Consistent fallback) (hfirst : h.first? key = none) {e : Failure} {s : Session β}
    (hbuild : h.cache.built? backend key h.session = (.error e, s)) :
    h.answer backend key = .error e ∧ (∀ k, (h.call backend key).cache.get? k = h.cache.get? k) ∧
      (h.call backend key).Consistent fallback := by
  rw [← hc.get?_eq] at hfirst
  obtain ⟨after, hresolve, hfallback, hbuilt, hget, hkeeps⟩ := resolve_of_not_built hfirst hbuild
  obtain ⟨hdistinct, hsize⟩ := hkeeps hc.distinct
  have hanswer : h.answer backend key = .error e := by rw [answer, hresolve]
  have hcache : (h.call backend key).cache = after := by rw [History.call, hresolve]
  have hfirst' : ∀ k, (h.call backend key).first? k = h.first? k :=
    fun k => first?_call_of_or (congrArg Except.toOption hanswer) (.inl rfl)
  refine ⟨hanswer, fun k => by rw [hcache, hget], ?_, ?_, fun k => ?_, fun k entry hmem => ?_, fun k entry hk => ?_, ?_⟩
  · rw [hcache, hfallback, hc.fallback_eq]
  · rw [hcache]
    exact hdistinct
  · rw [hcache, hget, hfirst', hc.get?_eq]
  · rw [answers_call, hanswer, List.mem_append, List.mem_singleton] at hmem
    rw [hfirst']
    rcases hmem with hmem | heq
    · exact hc.answered k entry hmem
    · cases heq
  · rw [hfirst'] at hk
    rw [hcache, hbuilt]
    exact hc.serial_lt k entry hk
  · rw [hcache, hsize, hc.size_eq, resolved_call_of_error hanswer]

/-- A pair that is built is new, and the first for its key. -/
theorem call_of_built (hc : h.Consistent fallback) (hfirst : h.first? key = none) {theme : Theme}
    {grammar : Grammar σ} {source : Source} {s : Session β}
    (hbuild : h.cache.built? backend key h.session = (.ok (theme, grammar, source), s)) :
    h.answer backend key = .ok ⟨h.cache.built, grammar, theme, source⟩ ∧ (h.call backend key).Consistent fallback := by
  have hnone := hfirst
  rw [← hc.get?_eq] at hnone
  obtain ⟨after, hresolve, hfallback, hbuilt, hget, hkeeps⟩ := resolve_of_built hnone hbuild
  obtain ⟨hdistinct, hsize⟩ := hkeeps hc.distinct
  have hanswer : h.answer backend key = .ok ⟨h.cache.built, grammar, theme, source⟩ := by rw [answer, hresolve]
  have hcache : (h.call backend key).cache = after := by rw [History.call, hresolve]
  have hfirst' : ∀ k, (h.call backend key).first? k =
      if k = key then some ⟨h.cache.built, grammar, theme, source⟩ else h.first? k := by
    intro k
    rw [first?_call, hanswer]
    by_cases hk : k = key
    · rw [hk, hfirst, Option.none_or, if_pos rfl, if_pos rfl]
      rfl
    · rw [if_neg hk, if_neg (Ne.symm hk), Option.or_none]
  refine ⟨hanswer, ?_, ?_, fun k => ?_, fun k entry hmem => ?_, fun k entry hk => ?_, ?_⟩
  · rw [hcache, hfallback, hc.fallback_eq]
  · rw [hcache]
    exact hdistinct
  · rw [hcache, hget, hfirst', hc.get?_eq]
  · rw [answers_call, hanswer, List.mem_append, List.mem_singleton] at hmem
    rw [hfirst']
    rcases hmem with hmem | heq
    · -- No pair before was for this key, which had none.
      have hk := hc.answered k entry hmem
      have hne : k ≠ key := by
        rintro rfl
        rw [hfirst] at hk
        cases hk
      rw [if_neg hne, hk]
    · cases heq
      rw [if_pos rfl]
  · rw [hfirst'] at hk
    rw [hcache, hbuilt]
    split at hk
    · cases hk
      exact Nat.lt_succ_self _
    · exact Nat.lt_succ_of_lt (hc.serial_lt k entry hk)
  · rw [hcache, hsize, hc.size_eq, length_resolved_call_of_ok hanswer, hfirst]
    rfl

/-- **A call keeps a history consistent**, whatever the backend answers. -/
theorem call (hc : h.Consistent fallback) (backend : Backend β σ) (key : Key) :
    (h.call backend key).Consistent fallback := by
  cases hfirst : h.first? key with
  | some entry => exact hc.call_of_first? hfirst
  | none =>
    rcases hbuild : h.cache.built? backend key h.session with ⟨e | ⟨theme, grammar, source⟩, s⟩
    · exact (hc.call_of_not_built hfirst hbuild).2.2
    · exact (hc.call_of_built hfirst hbuild).2

/-- **A call for a key without a pair** is answered with what its loads come to; a pair is numbered by those
built before it. -/
theorem answer_of_miss (hc : h.Consistent fallback) (backend : Backend β σ) (hfirst : h.first? key = none) :
    h.answer backend key =
      (backend.loaded fallback key h.session.state).1.map fun (theme, grammar, source) =>
        ⟨h.cache.built, grammar, theme, source⟩ := by
  rw [← hc.fallback_eq, ← built?_loaded]
  rcases hbuild : h.cache.built? backend key h.session with ⟨e | ⟨theme, grammar, source⟩, s⟩
  · exact (hc.call_of_not_built hfirst hbuild).1
  · exact (hc.call_of_built hfirst hbuild).1

theorem state_of_miss (hc : h.Consistent fallback) (backend : Backend β σ) (hfirst : h.first? key = none) :
    (h.call backend key).session.state = (backend.loaded fallback key h.session.state).2 := by
  rw [← hc.get?_eq] at hfirst
  rw [← hc.fallback_eq, ← built?_loaded, Prod.map_snd, ← session_of_get?_eq_none hfirst]
  rfl

/-- A pair that a call is answered with is cached under its key from then on, and under no other key anything
changes. -/
theorem get?_call_of_ok (hc : h.Consistent fallback) {entry : Entry σ} (hok : h.answer backend key = .ok entry)
    (k : Key) : (h.call backend key).cache.get? k = if k = key then some entry else h.cache.get? k := by
  rw [(hc.call backend key).get?_eq, hc.get?_eq, first?_call, hok]
  by_cases hk : k = key
  · rw [hk, if_pos rfl, if_pos rfl]
    cases hfirst : h.first? key with
    | some earlier =>
      rw [(hc.answer_of_first? backend hfirst).1] at hok
      cases hok
      rfl
    | none => rfl
  · rw [if_neg (Ne.symm hk), if_neg hk, Option.or_none]

/-- A call that fails, in whatever way, leaves what is cached. -/
theorem get?_call_of_error (hc : h.Consistent fallback) {e : Failure} (he : h.answer backend key = .error e) (k : Key) :
    (h.call backend key).cache.get? k = h.cache.get? k := by
  cases hfirst : h.first? key with
  | some entry =>
    rw [(hc.answer_of_first? backend hfirst).1] at he
    cases he
  | none =>
    rcases hbuild : h.cache.built? backend key h.session with ⟨e' | ⟨theme, grammar, source⟩, s⟩
    · exact (hc.call_of_not_built hfirst hbuild).2.1 k
    · rw [(hc.call_of_built hfirst hbuild).1] at he
      cases he

/-- A pair that was not cached is none of those before it. -/
theorem serial_ne (hc : h.Consistent fallback) (hfirst : h.first? key = none) {entry earlier : Entry σ}
    (hanswer : h.answer backend key = .ok entry) (hearlier : (k, .ok earlier) ∈ h.answers) :
    earlier.serial ≠ entry.serial := by
  have hlt := hc.serial_lt k earlier (hc.answered k earlier hearlier)
  rcases hbuild : h.cache.built? backend key h.session with ⟨e | ⟨theme, grammar, source⟩, s⟩
  · rw [(hc.call_of_not_built hfirst hbuild).1] at hanswer
    cases hanswer
  · rw [(hc.call_of_built hfirst hbuild).1] at hanswer
    cases hanswer
    exact Nat.ne_of_lt hlt

end Consistent

/-- **So does a run of calls.** -/
theorem Consistent.calls (hc : h.Consistent fallback) (backend : Backend β σ) (keys : List Key) :
    (keys.foldl (History.call backend) h).Consistent fallback := by
  induction keys generalizing h with
  | nil => exact hc
  | cons key keys ih => exact ih (hc.call backend key)

theorem consistent_run (backend : Backend β σ) (fallback : String) (session : Session β) (keys : List Key) :
    (run backend fallback session keys).Consistent fallback :=
  (Consistent.empty fallback session).calls backend keys

end History

/-- **The cache over a whole run**, whatever the backend answers to each load. A call is a hit if and only if
an earlier call with the same two names was answered with a pair; the first such pair is the answer, and nothing
is loaded. Any other call loads the theme, the grammar, and that of the fallback, each only if it comes to it, and
is answered with what these loads come to: the pair, which is told from all before it by its number, or the
failure. An answered pair is cached under its key and changes nothing under any other; a call that fails leaves
all that is cached. So the cache holds, for each key, the first pair that it was answered with, its size is the
number of the different keys that were answered with a pair, and it never falls. -/
theorem resolve_run (backend : Backend β σ) (fallback : String) (session : Session β) (keys : List Key) (key : Key) :
    let past := History.run backend fallback session keys
    let present := past.call backend key
    (.cacheHit key.language key.theme ∈ present.session.events.drop past.session.events.length ↔
      ∃ entry, (key, .ok entry) ∈ past.answers) ∧
    (∀ entry, past.first? key = some entry →
      past.answer backend key = .ok entry ∧ present.session.loads = past.session.loads ∧
        present.session.state = past.session.state) ∧
    (past.first? key = none →
      present.session.loads = past.session.loads ++ backend.loadsFor fallback key past.session.state ∧
      present.session.state = (backend.loaded fallback key past.session.state).2 ∧
      (∀ theme grammar source, (backend.loaded fallback key past.session.state).1 = .ok (theme, grammar, source) →
        past.answer backend key = .ok ⟨past.cache.built, grammar, theme, source⟩) ∧
      (∀ e, (backend.loaded fallback key past.session.state).1 = .error e → past.answer backend key = .error e) ∧
      ∀ entry, past.answer backend key = .ok entry →
        ∀ k earlier, (k, .ok earlier) ∈ past.answers → earlier.serial ≠ entry.serial) ∧
    (∀ entry, past.answer backend key = .ok entry →
      ∀ k, present.cache.get? k = if k = key then some entry else past.cache.get? k) ∧
    (∀ e, past.answer backend key = .error e → ∀ k, present.cache.get? k = past.cache.get? k) ∧
    (∀ k, present.cache.get? k = present.first? k) ∧
    (present.cache.count present.session).1 = present.resolved.length ∧
    past.cache.size ≤ present.cache.size := by
  intro past present
  have hpast : past.Consistent fallback := History.consistent_run backend fallback session keys
  have hpresent : present.Consistent fallback := hpast.call backend key
  have hgranted : (past.first? key).isSome ↔ ∃ entry, (key, .ok entry) ∈ past.answers :=
    History.isSome_first?_iff.trans History.mem_granted
  have hget := hpast.get?_eq key
  have hsession : present.session = (past.cache.resolve backend key past.session).2.2 := rfl
  have hgrows : past.cache.size ≤ present.cache.size := by
    rw [hpast.size_eq, hpresent.size_eq]
    exact History.length_resolved_le_call
  refine ⟨?_, fun entry hfirst => ?_, fun hfirst => ?_, fun _ hok => hpast.get?_call_of_ok hok,
    fun _ he => hpast.get?_call_of_error he, hpresent.get?_eq, hpresent.size_eq, hgrows⟩
  · rw [← hgranted, hsession]
    cases hfirst : past.first? key with
    | some entry =>
      obtain ⟨-, -, events, hevents, hhit⟩ :=
        resolve_session_of_get?_eq_some (hget.trans hfirst) backend past.session
      rw [hevents, List.drop_left]
      exact iff_of_true hhit rfl
    | none =>
      obtain ⟨-, events, hevents, hmiss⟩ :=
        resolve_session_of_get?_eq_none (hget.trans hfirst) backend past.session
      rw [hevents, List.drop_left]
      exact iff_of_false (hmiss _ _) (by simp)
  · obtain ⟨hloads, hstate, -⟩ := resolve_session_of_get?_eq_some (hget.trans hfirst) backend past.session
    exact ⟨(hpast.answer_of_first? backend hfirst).1, hloads, hstate⟩
  · have hanswer := hpast.answer_of_miss backend hfirst
    obtain ⟨hloads, -⟩ := resolve_session_of_get?_eq_none (hget.trans hfirst) backend past.session
    rw [hpast.fallback_eq] at hloads
    refine ⟨hloads, hpast.state_of_miss backend hfirst, fun theme grammar source hloaded => ?_, fun e hloaded => ?_,
      fun entry hok k earlier hearlier => hpast.serial_ne hfirst hok hearlier⟩
    · rw [hanswer, hloaded]
      rfl
    · rw [hanswer, hloaded]
      rfl

end Highlight.Cache
