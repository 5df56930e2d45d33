/-
Languages without a grammar of their own. A name under which no grammar is
registered, or one that fails to load (`Backend.Lacks`), is rendered with the
grammar of the fallback language, and all that tells the two renderings apart is
the source that the document names (`Highlighter.render_as_fallback`). Only where
the fallback has no grammar either do they fail in different ways: the
fallback's own name is not tried a second time, and so does not pass on why its
grammar failed to load.
-/
import Highlight.Proofs.Reachable
import Highlight.Proofs.Reconstruction

namespace Highlight

/-- Under this name no grammar is registered, or one that fails to load. -/
def Backend.Lacks (backend : Backend β σ) (language : String) (state : β) : Prop :=
  (backend.loadGrammar language state).1 = .ok none ∨ ∃ e, (backend.loadGrammar language state).1 = .error (.error e)

namespace Backend

variable {backend : Backend β σ} {fallback language : String} {state : β}

/-- A language without a grammar has what loading the fallback gives. -/
theorem grammarFor_of_lacks (hne : language ≠ fallback) (hlacks : backend.Lacks language state) :
    backend.grammarFor fallback language state =
      match (backend.loadGrammar fallback state).1 with
      | .ok (some grammar) => .ok (grammar, .fallback)
      | .ok none => .error (.error (.grammarUnavailable language fallback))
      | .error e => .error e := by
  unfold grammarFor
  rcases hlacks with hnone | ⟨e, herror⟩
  · rw [hnone]
    exact if_neg hne
  · rw [herror]
    exact if_neg hne

/-- The fallback itself is tried once, and why its grammar failed to load is not passed on. -/
theorem grammarFor_fallback (backend : Backend β σ) (fallback : String) (state : β) :
    backend.grammarFor fallback fallback state =
      match (backend.loadGrammar fallback state).1 with
      | .ok (some grammar) => .ok (grammar, .requested)
      | .ok none | .error (.error _) => .error (.error (.grammarUnavailable fallback fallback))
      | .error .panic => .error .panic := by
  unfold grammarFor
  rcases (backend.loadGrammar fallback state).1 with (e | _) | _ | grammar
  case error.error | ok.none => exact if_pos rfl
  case error.panic | ok.some => rfl

/-- The pairs of a language without a grammar and of the fallback differ in their source, or in how loading them
fails. -/
theorem pairFor_of_lacks (hne : language ≠ fallback) (hlacks : backend.Lacks language state) (theme : String) :
    let standing := backend.pairFor fallback ⟨language, theme⟩ state
    let own := backend.pairFor fallback ⟨fallback, theme⟩ state
    match (backend.loadTheme theme state).1, (backend.loadGrammar fallback state).1 with
    | .error e, _ => standing = .error e ∧ own = .error e
    | .ok loaded, .ok (some grammar) =>
      standing = .ok (loaded, grammar, .fallback) ∧ own = .ok (loaded, grammar, .requested)
    | .ok _, .ok none =>
      standing = .error (.error (.grammarUnavailable language fallback)) ∧
      own = .error (.error (.grammarUnavailable fallback fallback))
    | .ok _, .error (.error e) =>
      standing = .error (.error e) ∧ own = .error (.error (.grammarUnavailable fallback fallback))
    | .ok _, .error .panic => standing = .error .panic ∧ own = .error .panic := by
  intro standing own
  have hstanding : standing = backend.pairFor fallback ⟨language, theme⟩ state := rfl
  have hown : own = backend.pairFor fallback ⟨fallback, theme⟩ state := rfl
  rw [pairFor, grammarFor_of_lacks hne hlacks] at hstanding
  rw [pairFor, grammarFor_fallback] at hown
  rcases htheme : (backend.loadTheme theme state).1 with e | loaded
  · rw [htheme] at hstanding hown
    exact ⟨hstanding, hown⟩
  · rw [htheme] at hstanding hown
    rcases hgrammar : (backend.loadGrammar fallback state).1 with (e | _) | _ | grammar <;>
      · rw [hgrammar] at hstanding hown
        exact ⟨hstanding, hown⟩

end Backend

namespace Highlighter

/-- **A language without a grammar is rendered as the fallback language**, whatever the two renderers have been used
for. If one rendering succeeds, then so does the other with the same items, and each document names its source. If
the theme cannot be had, or the grammar gives up, or a colour is bad, both fail with the same error. If the fallback
has no grammar, both fail, the language with what keeps the fallback from loading, and the fallback always as having
no grammar. -/
theorem render_as_fallback {backend : Backend β σ} {config : Config} {h h' : Highlighter β σ} {language : String}
    {state : β} (hstable : backend.Stable) (hreach : Reachable backend config h)
    (hreach' : Reachable backend config h') (hne : language ≠ config.fallbackLanguage)
    (hlacks : backend.Lacks language state) (code theme : String) (appearance : Appearance) :
    let fallback := config.fallbackLanguage
    let standing := (h.render code language theme appearance).result
    let own := (h'.render code fallback theme appearance).result
    (∀ doc, standing = .ok doc → doc.source = some .fallback ∧ own = .ok { doc with source := some .requested }) ∧
    (∀ doc, own = .ok doc → doc.source = some .requested ∧ standing = .ok { doc with source := some .fallback }) ∧
    match (backend.loadTheme theme state).1, (backend.loadGrammar fallback state).1 with
    | .error e, _ => standing = .error e ∧ own = .error e
    | .ok _, .ok (some _) => ∀ e, standing = .error e ↔ own = .error e
    | .ok _, .ok none =>
      standing = .error (.error (.grammarUnavailable language fallback)) ∧
      own = .error (.error (.grammarUnavailable fallback fallback))
    | .ok _, .error (.error e) =>
      standing = .error (.error e) ∧ own = .error (.error (.grammarUnavailable fallback fallback))
    | .ok _, .error .panic => standing = .error .panic ∧ own = .error .panic := by
  intro fallback standing own
  have hstanding : standing = _ := hreach.render_result hstable code language theme appearance state
  have hown : own = _ := hreach'.render_result hstable code fallback theme appearance state
  have hpairs := Backend.pairFor_of_lacks hne hlacks theme
  -- Without a pair each rendering ends as loading its pair does; with one, both go over the same lines.
  rcases htheme : (backend.loadTheme theme state).1 with e | loaded <;>
    rcases hgrammar : (backend.loadGrammar fallback state).1 with (e' | _) | _ | grammar
  case ok.ok.some =>
    simp only [htheme, hgrammar, fallback] at hpairs
    rw [hpairs.1] at hstanding
    rw [hpairs.2] at hown
    rcases hlines : grammar.renderLines loaded appearance (Text.Lines.split code) grammar.start with ⟨items, e | _⟩ <;>
      simp only [hlines] at hstanding hown
    · simp [hstanding, hown]
    · refine ⟨fun doc hdoc => ?_, fun doc hdoc => ?_, fun e => by simp [hstanding, hown]⟩
      · cases hstanding.symm.trans hdoc
        exact ⟨rfl, hown⟩
      · cases hown.symm.trans hdoc
        exact ⟨rfl, hstanding⟩
  all_goals
    simp only [htheme, hgrammar, fallback] at hpairs
    rw [hpairs.1] at hstanding
    rw [hpairs.2] at hown
    simp [hstanding, hown, fallback]

end Highlighter

/-- Has a grammar under the name `text.plain`. The one named `broken` fails to load, and there is no other. -/
def Backend.wanting (theme : Theme) (grammar : Grammar σ) : Backend Unit σ where
  loadTheme _ s := (.ok theme, s)
  loadGrammar id s :=
    match id with
    | "text.plain" => (.ok (some grammar), s)
    | "broken" => (.error (.error (.tokenizer "broken")), s)
    | _ => (.ok none, s)

/-- A renderer that has rendered in the fallback language, and one that has resolved a language which is not there:
what the first makes of a broken language is what the second makes of the fallback. -/
theorem Highlighter.render_as_fallback_broken :
    let first := ((new (.wanting .plain .bytewise) {} ()).render "a" "text.plain" "plain" .dark).highlighter
    let second := ((new (.wanting .plain .bytewise) {} ()).resolve "missing" "plain").2
    (first.render "é" "broken" "plain" .light).result =
      .ok { items := [.span ⟨"é", .black, none, {}⟩, .lineBreak], source := some .fallback } ∧
    (second.render "é" "text.plain" "plain" .light).result =
      .ok { items := [.span ⟨"é", .black, none, {}⟩, .lineBreak], source := some .requested } := by
  intro first second
  have hstable : (Backend.wanting .plain .bytewise).Stable := ⟨fun _ _ _ => rfl, fun _ _ _ => by simp only [Backend.wanting]⟩
  have hfirst : Reachable (.wanting .plain .bytewise) {} first := .render _ _ _ _ (.new ())
  have hsecond : Reachable (.wanting .plain .bytewise) {} second := .resolve _ _ (.new ())
  have hlacks : (Backend.wanting .plain .bytewise).Lacks "broken" () := .inr ⟨_, rfl⟩
  have hown : (second.render "é" "text.plain" "plain" .light).result =
      .ok { items := [.span ⟨"é", .black, none, {}⟩, .lineBreak], source := some .requested } := by
    rw [hsecond.render_result hstable _ _ _ _ ()]
    rfl
  obtain ⟨-, hback, -⟩ := render_as_fallback hstable hfirst hsecond (by decide) hlacks "é" "plain" .light
  exact ⟨(hback _ hown).2, hown⟩

end Highlight
