/-
A renderer that does not remember. What a rendering shows depends on the pair
that its names resolve to, and on nothing else that the renderer holds
(`render_congr`). A renderer in use resolves the pairs that a new one resolves,
so whatever it has been used for, it renders as a new one would
(`render_eq_render_new`).
-/
import Highlight.Proofs.FirstFailure
import Highlight.Proofs.Reachable

namespace Highlight.Highlighter

/-- Two renderers with the same settings, which resolve the same pair, render alike. -/
theorem render_congr {h h' : Highlighter β σ} (hconfig : h.config = h'.config) {language theme : String}
    (hpair : (h.resolve language theme).1.map Cache.Entry.pair = (h'.resolve language theme).1.map Cache.Entry.pair)
    (code : String) (appearance : Appearance) :
    (h.render code language theme appearance).result = (h'.render code language theme appearance).result ∧
    (h.render code language theme appearance).calls = (h'.render code language theme appearance).calls ∧
    (h.render code language theme appearance).lookups = (h'.render code language theme appearance).lookups := by
  have hsame : (h.resolve language theme).2.config = (h'.resolve language theme).2.config := hconfig
  unfold render
  generalize h.resolve language theme = answer at hpair hsame ⊢
  generalize h'.resolve language theme = answer' at hpair hsame ⊢
  obtain ⟨e | entry, after⟩ := answer <;> obtain ⟨e' | entry', after'⟩ := answer'
  case error.error =>
    cases hpair
    exact ⟨rfl, rfl, rfl⟩
  case error.ok | ok.error => cases hpair
  case ok.ok =>
    -- The serial numbers of the two entries may differ, but no rendering looks at them.
    obtain ⟨serial, grammar, loaded, source⟩ := entry
    obtain ⟨serial', grammar', loaded', source'⟩ := entry'
    cases hpair
    dsimp only at hsame ⊢
    rw [hsame]
    generalize Pass.run .collect _ _ _ = pass
    rcases pass.result with _ | ⟨⟩ <;> exact ⟨rfl, rfl, rfl⟩

/-- **A renderer renders as a new one would**, whatever it has been used for, if its backend answers by the name
alone: earlier renderings, whether they came to their end or broke off, change neither what a rendering returns nor
what it gives the grammar or asks of the theme. -/
theorem render_eq_render_new {backend : Backend β σ} {config : Config} {h : Highlighter β σ}
    (hstable : backend.Stable) (hreach : Reachable backend config h) (code language theme : String)
    (appearance : Appearance) (state : β) :
    let rendering := h.render code language theme appearance
    let anew := (new backend config state).render code language theme appearance
    rendering.result = anew.result ∧ rendering.calls = anew.calls ∧ rendering.lookups = anew.lookups := by
  have hfresh : Reachable backend config (new backend config state) := .new state
  have hconfig : h.config = (new backend config state).config := (hreach.serves hstable).config_eq
  refine render_congr hconfig ?_ code appearance
  rw [hreach.resolve_pair hstable language theme state, hfresh.resolve_pair hstable language theme state]

/-- A rendering that breaks off at a colour, and one that breaks off in the grammar after a line: the next, of two
blank lines, comes out as from a new renderer. -/
theorem render_eq_render_new_after_failures :
    let first := (new (.single .colorless .stopping) {} ()).render "a" "stopping" "colorless" .light
    let second := first.highlighter.render "\nstop" "stopping" "colorless" .dark
    let third := second.highlighter.render "\n" "stopping" "colorless" .light
    first.result = .error (.error (.color (.missing ⟨7⟩))) ∧
    second.result = .error (.error (.tokenizer "stopped")) ∧
    third.result = .ok { items := [.lineBreak, .lineBreak], source := some .requested } ∧
    third.result = ((new (.single .colorless .stopping) {} ()).render "\n" "stopping" "colorless" .light).result := by
  intro first second third
  have hstable := Backend.stable_single .colorless .stopping
  have hfirst : Reachable (.single .colorless .stopping) {} first.highlighter := .render _ _ _ _ (.new ())
  have hsecond : Reachable (.single .colorless .stopping) {} second.highlighter := .render _ _ _ _ hfirst
  have hthird := (render_eq_render_new hstable hsecond "\n" "stopping" "colorless" .light ()).1
  refine ⟨?_, ?_, hthird.trans ?_, hthird⟩
  · rw [render_result]
    rfl
  · rw [(render_eq_render_new hstable hfirst "\nstop" "stopping" "colorless" .dark ()).1, render_result]
    rfl
  · rw [render_result]
    rfl

end Highlight.Highlighter
