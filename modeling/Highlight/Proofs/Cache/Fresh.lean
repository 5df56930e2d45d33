/-
A cache that hides nothing. A backend that answers by the name alone has one
pair for each key (`Backend.pairFor`), whatever state it is in. A cache is
fresh if it holds these pairs and no others; a call keeps it so, and is
answered with the pair of its key (`Fresh.resolve`). Only the serial number of
an entry tells a pair from the cache from one just loaded.
-/
import Highlight.Proofs.Cache.Resolve

namespace Highlight

/-- The grammar of a language, or else that of the fallback, as a backend in this state would load them. -/
def Backend.grammarFor (backend : Backend β σ) (fallback language : String) (state : β) :
    Except Failure (Grammar σ × Source) :=
  match (backend.loadGrammar language state).1 with
  | .ok (some grammar) => .ok (grammar, .requested)
  | .error .panic => .error .panic
  | .ok none | .error (.error _) =>
    if language = fallback then .error (.error (.grammarUnavailable language fallback))
    else match (backend.loadGrammar fallback state).1 with
      | .ok (some grammar) => .ok (grammar, .fallback)
      | .ok none => .error (.error (.grammarUnavailable language fallback))
      | .error e => .error e

/-- The pair of a key, as a backend in this state would load it. -/
def Backend.pairFor (backend : Backend β σ) (fallback : String) (key : Cache.Key) (state : β) :
    Except Failure (Theme × Grammar σ × Source) :=
  match (backend.loadTheme key.theme state).1 with
  | .error e => .error e
  | .ok theme => (backend.grammarFor fallback key.language state).map (theme, ·)

theorem Backend.Stable.loadedGrammar_fst {backend : Backend β σ} (hstable : backend.Stable)
    (fallback language : String) (s state : β) :
    (backend.loadedGrammar fallback language s).1 = backend.grammarFor fallback language state := by
  unfold loadedGrammar grammarFor
  rw [← hstable.grammar language s state]
  rcases backend.loadGrammar language s with ⟨(e | _) | _ | grammar, s'⟩
  case error.panic | ok.some => rfl
  case error.error | ok.none =>
    dsimp only
    split
    · rfl
    · rw [← hstable.grammar fallback s' state]
      rcases backend.loadGrammar fallback s' with ⟨_ | _ | _, _⟩ <;> rfl

/-- Where the answers depend on the names alone, loads in turn come to what loads in one state would. -/
theorem Backend.Stable.loaded_fst {backend : Backend β σ} (hstable : backend.Stable) (fallback : String)
    (key : Cache.Key) (s state : β) : (backend.loaded fallback key s).1 = backend.pairFor fallback key state := by
  unfold loaded pairFor
  rw [← hstable.theme key.theme s state]
  rcases backend.loadTheme key.theme s with ⟨e | theme, s'⟩
  · rfl
  · dsimp only
    rw [← hstable.loadedGrammar_fst fallback key.language s' state]
    rfl

/-- Loads the same theme and the same grammar under every name. -/
def Backend.single (theme : Theme) (grammar : Grammar σ) : Backend Unit σ where
  loadTheme _ s := (.ok theme, s)
  loadGrammar _ s := (.ok (some grammar), s)

theorem Backend.stable_single (theme : Theme) (grammar : Grammar σ) : (Backend.single theme grammar).Stable :=
  ⟨fun _ _ _ => rfl, fun _ _ _ => rfl⟩

namespace Cache

/-- An entry without its serial number. -/
def Entry.pair (entry : Entry σ) : Theme × Grammar σ × Source := (entry.theme, entry.grammar, entry.source)

/-- Each cached pair is the one that the backend would load now. -/
def Fresh (backend : Backend β σ) (c : Cache σ) : Prop :=
  ∀ key entry, c.get? key = some entry → ∀ state, backend.pairFor c.fallback key state = .ok entry.pair

variable {backend : Backend β σ} {fallback : String} {c : Cache σ} {key : Key} {s : Session β}

theorem build_fst (hstable : backend.Stable) (s : Session β) (state : β) :
    (build backend fallback key s).1 = backend.pairFor fallback key state := by
  rw [← hstable.loaded_fst fallback key s.state, ← build_loaded]
  rfl

/-- **A call of a fresh cache is answered with the pair of its key**, or fails as loading it would, and
leaves the cache fresh. -/
theorem Fresh.resolve (hfresh : c.Fresh backend) (hstable : backend.Stable) (key : Key) (s : Session β) (state : β) :
    (c.resolve backend key s).1.map Entry.pair = backend.pairFor c.fallback key state ∧
    (c.resolve backend key s).2.1.fallback = c.fallback ∧ (c.resolve backend key s).2.1.Fresh backend := by
  cases hget : c.get? key with
  | some entry =>
    rw [resolve_of_get?_eq_some hget]
    exact ⟨(hfresh key entry hget state).symm, rfl, hfresh⟩
  | none =>
    have hpair : (c.built? backend key s).1 = backend.pairFor c.fallback key state := build_fst hstable _ state
    rcases hbuild : c.built? backend key s with ⟨e | ⟨theme, grammar, source⟩, s'⟩
    · obtain ⟨after, hresolve, hfallback, -, hsame, -⟩ := resolve_of_not_built hget hbuild
      rw [hbuild] at hpair
      rw [hresolve]
      refine ⟨hpair, hfallback, fun k entry hk state' => ?_⟩
      rw [hsame] at hk
      rw [hfallback]
      exact hfresh k entry hk state'
    · obtain ⟨after, hresolve, hfallback, -, hput, -⟩ := resolve_of_built hget hbuild
      rw [hbuild] at hpair
      rw [hresolve]
      refine ⟨hpair, hfallback, fun k entry hk state' => ?_⟩
      rw [hput] at hk
      rw [hfallback]
      split at hk
      · rename_i hkey
        cases hk
        have hpair' : (c.built? backend key s).1 = backend.pairFor c.fallback key state' := build_fst hstable _ state'
        rw [hkey, ← hpair', hbuild]
        rfl
      · exact hfresh k entry hk state'

end Cache

end Highlight
