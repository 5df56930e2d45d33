/-
Renderers in use. `Highlighter.Reachable` are the renderers that a new one can
become by rendering and resolving, whatever comes of it. If the backend answers
by the name alone, each of them resolves a pair just as a new one would
(`Reachable.resolve_pair`): renderings, failed ones too, only fill the cache. So
what it makes of a text is told by the pair alone (`Reachable.render_result`).
-/
import Highlight.Proofs.Cache.Fresh
import Highlight.Proofs.Rendering

namespace Highlight.Highlighter

/-- The renderers that rendering and resolving lead to, from a new one on. `renderDefault` is a `render`. -/
inductive Reachable (backend : Backend β σ) (config : Config) : Highlighter β σ → Prop
  | new (state : β) : Reachable backend config (.new backend config state)
  | resolve {h : Highlighter β σ} (language theme : String) (reached : Reachable backend config h) :
    Reachable backend config (h.resolve language theme).2
  | render {h : Highlighter β σ} (code language theme : String) (appearance : Appearance)
    (reached : Reachable backend config h) :
    Reachable backend config (h.render code language theme appearance).highlighter

/-- A renderer with this backend and these settings, whose cache hides nothing. -/
structure Serves (backend : Backend β σ) (config : Config) (h : Highlighter β σ) : Prop where
  backend_eq : h.backend = backend
  config_eq : h.config = config
  fallback_eq : h.cache.fallback = config.fallbackLanguage
  fresh : h.cache.Fresh backend

/-- A rendering, however it ends, leaves the cache that resolving its names leaves. -/
theorem render_highlighter (h : Highlighter β σ) (code language theme : String) (appearance : Appearance) :
    (h.render code language theme appearance).highlighter.backend = h.backend ∧
    (h.render code language theme appearance).highlighter.config = h.config ∧
    (h.render code language theme appearance).highlighter.cache = (h.resolve language theme).2.cache := by
  have hresolve : (h.resolve language theme).2.backend = h.backend ∧ (h.resolve language theme).2.config = h.config :=
    ⟨rfl, rfl⟩
  unfold render
  generalize h.resolve language theme = answer at hresolve ⊢
  obtain ⟨_ | entry, h'⟩ := answer
  · exact ⟨hresolve.1, hresolve.2, rfl⟩
  · dsimp only
    generalize Pass.run .collect _ _ _ = pass
    rcases pass.result with _ | ⟨⟩ <;> exact ⟨hresolve.1, hresolve.2, rfl⟩

variable {backend : Backend β σ} {config : Config} {h : Highlighter β σ}

theorem Serves.resolve (hserves : h.Serves backend config) (hstable : backend.Stable) (language theme : String) :
    (h.resolve language theme).2.Serves backend config := by
  obtain ⟨rfl, rfl, hfallback, hfresh⟩ := hserves
  obtain ⟨-, hsame, hfresh'⟩ := hfresh.resolve hstable ⟨language, theme⟩ h.session h.session.state
  exact ⟨rfl, rfl, hsame.trans hfallback, hfresh'⟩

theorem Reachable.serves (hreach : Reachable backend config h) (hstable : backend.Stable) : h.Serves backend config := by
  induction hreach with
  | new state => exact ⟨rfl, rfl, rfl, fun _ _ hget => by cases hget⟩
  | resolve language theme _ ih => exact ih.resolve hstable language theme
  | @render h code language theme appearance _ ih =>
    obtain ⟨hbackend, hconfig, hcache⟩ := h.render_highlighter code language theme appearance
    obtain ⟨-, -, hfallback, hfresh⟩ := ih.resolve hstable language theme
    refine ⟨hbackend.trans ih.backend_eq, hconfig.trans ih.config_eq, ?_, ?_⟩
    · rw [hcache, hfallback]
    · rw [hcache]
      exact hfresh

/-- **A renderer resolves a pair as a new one would**, whatever it has been used for. -/
theorem Reachable.resolve_pair (hreach : Reachable backend config h) (hstable : backend.Stable)
    (language theme : String) (state : β) :
    (h.resolve language theme).1.map Cache.Entry.pair =
      backend.pairFor config.fallbackLanguage ⟨language, theme⟩ state := by
  obtain ⟨rfl, rfl, hfallback, hfresh⟩ := hreach.serves hstable
  rw [← hfallback]
  exact (hfresh.resolve hstable ⟨language, theme⟩ h.session state).1

/-- **What a renderer makes of a text** depends on the pair that its backend would load now. -/
theorem Reachable.render_result (hreach : Reachable backend config h) (hstable : backend.Stable)
    (code language theme : String) (appearance : Appearance) (state : β) :
    (h.render code language theme appearance).result =
      match backend.pairFor config.fallbackLanguage ⟨language, theme⟩ state with
      | .error e => .error e
      | .ok (loaded, grammar, source) =>
        match grammar.renderLines loaded appearance (Text.Lines.split code) grammar.start with
        | (_, .error e) => .error (.error e)
        | (items, .ok ()) => .ok { items, source := some source } := by
  rw [h.render_result, ← hreach.resolve_pair hstable language theme state]
  rcases (h.resolve language theme).1 with e | entry <;> rfl

end Highlight.Highlighter
