/-
The first failure in document order. `Backend.steps` lists all that a rendering
may come to do, in order, each step with how it fails, if it does: the theme,
the grammar, and then, line by line, the tokens of the line and the colours
that they are shown in. A step that others need ends the list if it fails; a
colour does not, so the list may hold many failures.

`Pass.run_steps`: a pass does the steps up to the first that fails, and none
after it. `Highlighter.render_first_failure`: so does a rendering, and this
failure is how it ends.
-/
import Highlight.Proofs.Reachable
import Highlight.Proofs.Rendering

namespace Highlight

/-- What may be done in one step of a rendering. -/
inductive Action (σ : Type) where
  | loadTheme (name : String)
  /-- With the fallback, where it comes to that. -/
  | loadGrammar (language : String)
  | lex (call : Call σ)
  /-- Decodes a colour that a token of a line is shown in. -/
  | color (line : String) (token : Token) (ref : ColorRef)

/-- A step of a rendering, and how it fails, if it does. -/
structure Step (σ : Type) where
  action : Action σ
  failure : Option Failure := none

namespace Step

def fails (step : Step σ) : Bool := step.failure.isSome

/-- What a step gives the grammar. -/
def call? (step : Step σ) : Option (Call σ) :=
  match step.action with
  | .lex call => some call
  | _ => none

/-- The colour that a step asks for. -/
def ref? (step : Step σ) : Option ColorRef :=
  match step.action with
  | .color _ _ ref => some ref
  | _ => none

end Step

/-- Painting a line: the colours of its tokens, one after the other. -/
def Theme.steps (theme : Theme) (line : String) (tokens : List Token) : List (Step σ) :=
  tokens.flatMap fun token => (theme.colorsOf line token).map fun ref =>
    { action := .color line token ref, failure := (theme.error? ref).map fun e => .error (.color e) }

/-- Lexing and painting lines, one after the other. -/
def Grammar.steps (grammar : Grammar σ) (theme : Theme) : List String → σ → List (Step σ)
  | [], _ => []
  | line :: lines, state =>
    match grammar.tokenize .unbounded line state with
    | .error e => [{ action := .lex ⟨line, state, .unbounded⟩, failure := some (.error e) }]
    | .ok (tokens, next) =>
      { action := .lex ⟨line, state, .unbounded⟩ } :: theme.steps line tokens ++ grammar.steps theme lines next

/-- Rendering a text, with what this backend in this state would load. -/
def Backend.steps (backend : Backend β σ) (fallback : String) (state : β) (code language theme : String) :
    List (Step σ) :=
  match (backend.loadTheme theme state).1 with
  | .error e => [{ action := .loadTheme theme, failure := some e }]
  | .ok loaded =>
    { action := .loadTheme theme } ::
      match backend.grammarFor fallback language state with
      | .error e => [{ action := .loadGrammar language, failure := some e }]
      | .ok (grammar, _) =>
        { action := .loadGrammar language } :: grammar.steps loaded (Text.Lines.split code) grammar.start

@[simp] theorem Step.filterMap_call?_lex (call : Call σ) (failure : Option Failure) (steps : List (Step σ)) :
    ({ action := .lex call, failure } :: steps).filterMap Step.call? = call :: steps.filterMap Step.call? := rfl

@[simp] theorem Step.filterMap_ref?_lex (call : Call σ) (failure : Option Failure) (steps : List (Step σ)) :
    ({ action := .lex call, failure } :: steps).filterMap Step.ref? = steps.filterMap Step.ref? := rfl

theorem Step.any_fails (steps : List (Step σ)) : steps.any fails = (steps.findSome? failure).isSome :=
  List.isSome_findSome?.symm

namespace Theme

variable {theme : Theme} {line : String} {tokens : List Token}

/-- The colours of a token: it has some character, and they are set by the first rules that set them. -/
theorem mem_colorsOf_iff {token : Token} {ref : ColorRef} :
    ref ∈ theme.colorsOf line token ↔
      Text.Bytes.clamp line token.start token.stop ≠ none ∧
        ((theme.rulesFor token.scopes).findSome? Rule.foreground = some ref ∨
          (theme.rulesFor token.scopes).findSome? Rule.background = some ref) := by
  unfold colorsOf
  cases Text.Bytes.clamp line token.start token.stop with
  | none => simp
  | some range => simp [Style.colors, styleOf, Style.fold]

theorem filterMap_ref?_steps :
    (theme.steps line tokens : List (Step σ)).filterMap Step.ref? = tokens.flatMap (theme.colorsOf line) := by
  unfold steps
  rw [List.filterMap_flatMap]
  congr 1
  funext token
  rw [List.filterMap_map]
  exact List.filterMap_some

theorem exists_of_mem_steps {step : Step σ} (h : step ∈ theme.steps line tokens) :
    ∃ token ∈ tokens, ∃ ref ∈ theme.colorsOf line token,
      step = ⟨.color line token ref, (theme.error? ref).map fun e => .error (.color e)⟩ := by
  obtain ⟨token, htoken, hstep⟩ := List.mem_flatMap.1 h
  obtain ⟨ref, href, rfl⟩ := List.mem_map.1 hstep
  exact ⟨token, htoken, ref, href, rfl⟩

theorem filterMap_call?_steps {steps : List (Step σ)} (h : steps ⊆ theme.steps line tokens) :
    steps.filterMap Step.call? = [] := by
  rw [List.filterMap_eq_nil_iff]
  intro step hstep
  obtain ⟨token, -, ref, -, rfl⟩ := exists_of_mem_steps (h hstep)
  rfl

theorem findSome?_failure_steps :
    (theme.steps line tokens : List (Step σ)).findSome? Step.failure =
      ((tokens.flatMap (theme.colorsOf line)).findSome? theme.error?).map fun e => .error (.color e) := by
  induction tokens with
  | nil => rfl
  | cons token tokens ih =>
    have hsplit : (theme.steps line (token :: tokens) : List (Step σ)) =
        theme.steps line [token] ++ theme.steps line tokens := by
      simp [steps]
    have htoken : (theme.steps line [token] : List (Step σ)).findSome? Step.failure =
        ((theme.colorsOf line token).findSome? theme.error?).map fun e => .error (.color e) := by
      rw [List.map_findSome?, steps, List.flatMap_singleton, List.findSome?_map]
      rfl
    rw [hsplit, List.findSome?_append, htoken, ih, List.flatMap_cons, List.findSome?_append, Option.map_or]

theorem any_fails_steps :
    (theme.steps line tokens : List (Step σ)).any Step.fails =
      (tokens.flatMap (theme.colorsOf line)).any theme.fails := by
  rw [Step.any_fails, findSome?_failure_steps, Option.isSome_map, any_fails]

/-- The colours of a line that are asked for are those up to the first that fails. -/
theorem filterMap_ref?_throughFirst :
    (throughFirst Step.fails (theme.steps line tokens : List (Step σ))).filterMap Step.ref? =
      throughFirst theme.fails (tokens.flatMap (theme.colorsOf line)) := by
  rw [← filterMap_ref?_steps (σ := σ)]
  refine filterMap_throughFirst fun step hstep => ?_
  obtain ⟨token, -, ref, -, rfl⟩ := exists_of_mem_steps hstep
  exact ⟨ref, rfl, Option.isSome_map⟩

end Theme

namespace Grammar

variable {grammar : Grammar σ} {theme : Theme} {appearance : Appearance}

theorem steps_of_tokenize_error {line : String} {lines : List String} {state : σ} {e : RenderError}
    (h : grammar.tokenize .unbounded line state = .error e) :
    grammar.steps theme (line :: lines) state =
      [{ action := .lex ⟨line, state, .unbounded⟩, failure := some (.error e) }] := by
  rw [steps, h]

theorem steps_of_tokenize_ok {line : String} {lines : List String} {state next : σ} {tokens : List Token}
    (h : grammar.tokenize .unbounded line state = .ok (tokens, next)) :
    grammar.steps theme (line :: lines) state =
      { action := .lex ⟨line, state, .unbounded⟩ } :: (theme.steps line tokens ++ grammar.steps theme lines next) := by
  rw [steps, h]
  rfl

/-- Lines are rendered to the first failure among their steps. -/
theorem findSome?_failure_steps (grammar : Grammar σ) (theme : Theme) (appearance : Appearance) (lines : List String)
    (state : σ) :
    (grammar.steps theme lines state).findSome? Step.failure =
      match (grammar.renderLines theme appearance lines state).2 with
      | .error e => some (.error e)
      | .ok () => none := by
  induction lines generalizing state with
  | nil => rfl
  | cons line lines ih =>
    cases htokens : grammar.tokenize .unbounded line state with
    | error e =>
      rw [steps_of_tokenize_error htokens, renderLines_of_tokenize_error htokens]
      rfl
    | ok answer =>
      obtain ⟨tokens, next⟩ := answer
      rw [steps_of_tokenize_ok htokens, List.findSome?_cons, List.findSome?_append, Theme.findSome?_failure_steps]
      have hend := Theme.paint_snd theme appearance line tokens
      cases hcolors : (tokens.flatMap (theme.colorsOf line)).findSome? theme.error? with
      | some e =>
        rw [hcolors] at hend
        rw [renderLines_of_paint_error htokens (Prod.ext rfl hend)]
        rfl
      | none =>
        rw [hcolors] at hend
        rw [renderLines_of_paint_ok htokens (Prod.ext rfl hend)]
        exact ih next

theorem color_of_mem_steps {lines : List String} {state : σ}
    {step : Step σ} (h : step ∈ grammar.steps theme lines state) {line : String} {token : Token} {ref : ColorRef}
    (hcolor : step.action = .color line token ref) : ref ∈ theme.colorsOf line token := by
  induction lines generalizing state with
  | nil => cases h
  | cons first lines ih =>
    cases htokens : grammar.tokenize .unbounded first state with
    | error e =>
      rw [steps_of_tokenize_error htokens, List.mem_singleton] at h
      subst h
      cases hcolor
    | ok answer =>
      obtain ⟨tokens, next⟩ := answer
      rw [steps_of_tokenize_ok htokens, List.mem_cons, List.mem_append] at h
      rcases h with rfl | h | h
      · cases hcolor
      · obtain ⟨token', -, ref', href, rfl⟩ := Theme.exists_of_mem_steps h
        cases hcolor
        exact href
      · exact ih h

end Grammar

namespace Pass

/-- **A pass does the steps up to the first that fails**, and gives the grammar and asks the theme for nothing
more. A colour that it has, it does not ask for again. -/
theorem run_steps (sink : Sink κ) (lexing : Lexing σ) (k : κ) {p : Painter} {theme : Theme} {appearance : Appearance}
    {asked : List ColorRef} (hlive : lexing.failed = false) (hp : p.After theme appearance asked)
    (hasked : asked.any theme.fails = false) :
    let done := throughFirst Step.fails (lexing.grammar.steps theme lexing.rest lexing.state)
    (run sink lexing p k).lexing.calls = lexing.calls ++ done.filterMap Step.call? ∧
    (run sink lexing p k).painter.lookups = (asked ++ done.filterMap Step.ref?).eraseDups := by
  generalize hrest : lexing.rest = lines
  induction lines generalizing lexing p asked k with
  | nil =>
    rw [run_of_none (Lexing.next_of_nil hrest)]
    refine ⟨(List.append_nil _).symm, ?_⟩
    rw [Grammar.steps, throughFirst, List.filterMap_nil, List.append_nil]
    exact hp.lookups_of_not_any hasked
  | cons line lines ih =>
    cases htokens : lexing.grammar.tokenize .unbounded line lexing.state with
    | error e =>
      obtain ⟨after, hnext, -, -, -, hcalls⟩ := Lexing.next_of_error hlive hrest htokens
      rw [run_of_error hnext, Grammar.steps_of_tokenize_error htokens]
      refine ⟨hcalls, ?_⟩
      rw [throughFirst, throughFirst, ite_self, Step.filterMap_ref?_lex, List.filterMap_nil, List.append_nil]
      exact hp.lookups_of_not_any hasked
    | ok answer =>
      obtain ⟨tokens, state⟩ := answer
      obtain ⟨after, hnext, hgrammar, hlines, hstate, hlive', hcalls⟩ := Lexing.next_of_ok hlive hrest htokens
      obtain ⟨q, hq, hafter⟩ := hp.line sink line tokens k
      have hend := Theme.paint_snd theme appearance line tokens
      have hlex : throughFirst Step.fails (lexing.grammar.steps theme (line :: lines) lexing.state) =
          { action := .lex ⟨line, lexing.state, .unbounded⟩ } ::
            throughFirst Step.fails (theme.steps line tokens ++ lexing.grammar.steps theme lines state) := by
        rw [Grammar.steps_of_tokenize_ok htokens]
        rfl
      cases hcolors : (tokens.flatMap (theme.colorsOf line)).findSome? theme.error? with
      | some e =>
        have hany : (theme.steps line tokens : List (Step σ)).any Step.fails = true := by
          rw [Theme.any_fails_steps, Theme.any_fails, hcolors]
          rfl
        rw [hend, hcolors] at hq
        rw [run_of_line_error hnext hq, hlex, throughFirst_append_of_any hany]
        refine ⟨?_, ?_⟩
        · rw [Step.filterMap_call?_lex, Theme.filterMap_call?_steps (throughFirst_subset _ _)]
          exact hcalls
        · rw [Step.filterMap_ref?_lex, Theme.filterMap_ref?_throughFirst]
          exact hafter.lookups_of_throughFirst hasked
      | none =>
        have hany : (theme.steps line tokens : List (Step σ)).any Step.fails = false := by
          rw [Theme.any_fails_steps, Theme.any_fails, hcolors]
          rfl
        -- No colour of the line fails, so all of them have been asked for when the next line is taken.
        have hfails := hany
        rw [Theme.any_fails_steps] at hfails
        rw [throughFirst_of_not_any hfails] at hafter
        rw [hend, hcolors] at hq
        rw [run_of_line_ok hnext hq, hlex, throughFirst_append_of_not_any hany]
        obtain ⟨hcalls', hlookups⟩ := ih after _ hlive' hafter (by rw [List.any_append, hasked, hfails]; rfl) hlines
        rw [hgrammar, hstate] at hcalls' hlookups
        refine ⟨?_, ?_⟩
        · rw [hcalls', hcalls, Step.filterMap_call?_lex, List.filterMap_append,
            Theme.filterMap_call?_steps (List.Subset.refl _), List.append_assoc]
          rfl
        · rw [hlookups, Step.filterMap_ref?_lex, List.filterMap_append, Theme.filterMap_ref?_steps,
            List.append_assoc]

end Pass

namespace Backend

variable {backend : Backend β σ} {fallback language theme : String} {state : β}

theorem steps_of_pairFor_ok {loaded : Theme} {grammar : Grammar σ} {source : Source}
    (h : backend.pairFor fallback ⟨language, theme⟩ state = .ok (loaded, grammar, source)) (code : String) :
    backend.steps fallback state code language theme =
      { action := .loadTheme theme } :: { action := .loadGrammar language } ::
        grammar.steps loaded (Text.Lines.split code) grammar.start := by
  unfold pairFor at h
  unfold steps
  dsimp only at h
  rcases htheme : (backend.loadTheme theme state).1 with e | loaded'
  · rw [htheme] at h
    cases h
  · rcases hgrammar : backend.grammarFor fallback language state with e | ⟨grammar', source'⟩
    · rw [htheme, hgrammar] at h
      cases h
    · rw [htheme, hgrammar] at h
      cases h
      rfl

/-- If the pair cannot be loaded, then loading it is all that is done. -/
theorem steps_of_pairFor_error {e : Failure} (h : backend.pairFor fallback ⟨language, theme⟩ state = .error e)
    (code : String) :
    (backend.steps fallback state code language theme).findSome? Step.failure = some e ∧
    (throughFirst Step.fails (backend.steps fallback state code language theme)).filterMap Step.call? = [] ∧
    (throughFirst Step.fails (backend.steps fallback state code language theme)).filterMap Step.ref? = [] := by
  unfold pairFor at h
  unfold steps
  dsimp only at h
  rcases htheme : (backend.loadTheme theme state).1 with e' | loaded
  · rw [htheme] at h
    cases h
    exact ⟨rfl, rfl, rfl⟩
  · rcases hgrammar : backend.grammarFor fallback language state with e' | ⟨grammar, source⟩
    · rw [htheme, hgrammar] at h
      cases h
      exact ⟨rfl, rfl, rfl⟩
    · rw [htheme, hgrammar] at h
      cases h

theorem color_of_mem_steps {code : String} {step : Step σ}
    (h : step ∈ backend.steps fallback state code language theme) {line : String} {token : Token} {ref : ColorRef}
    (hcolor : step.action = .color line token ref) :
    ∃ loaded, (backend.loadTheme theme state).1 = .ok loaded ∧ ref ∈ loaded.colorsOf line token := by
  unfold steps at h
  rcases htheme : (backend.loadTheme theme state).1 with e | loaded
  · simp only [htheme, List.mem_singleton] at h
    subst h
    cases hcolor
  · refine ⟨loaded, rfl, ?_⟩
    rcases hgrammar : backend.grammarFor fallback language state with e | ⟨grammar, source⟩
    · simp only [htheme, hgrammar, List.mem_cons, List.not_mem_nil, or_false] at h
      rcases h with rfl | rfl <;> cases hcolor
    · simp only [htheme, hgrammar, List.mem_cons] at h
      rcases h with rfl | rfl | h
      · cases hcolor
      · cases hcolor
      · exact Grammar.color_of_mem_steps h hcolor

/-- A colour that a rendering may ask for is one that a token with some character is shown in: that of the first
rule to set it. -/
theorem wins_of_mem_steps {code : String} {step : Step σ} (h : step ∈ backend.steps fallback state code language theme)
    {line : String} {token : Token} {ref : ColorRef} (hcolor : step.action = .color line token ref) :
    Text.Bytes.clamp line token.start token.stop ≠ none ∧
      ∃ loaded, (backend.loadTheme theme state).1 = .ok loaded ∧
        ((loaded.rulesFor token.scopes).findSome? Rule.foreground = some ref ∨
          (loaded.rulesFor token.scopes).findSome? Rule.background = some ref) := by
  obtain ⟨loaded, hloaded, href⟩ := color_of_mem_steps h hcolor
  obtain ⟨hclamp, hwins⟩ := Theme.mem_colorsOf_iff.1 href
  exact ⟨hclamp, loaded, hloaded, hwins⟩

end Backend

namespace Highlighter

theorem render_trace_of_error {h : Highlighter β σ} {language theme : String} {e : Failure}
    (hresolve : (h.resolve language theme).1 = .error e) (code : String) (appearance : Appearance) :
    (h.render code language theme appearance).calls = [] ∧ (h.render code language theme appearance).lookups = [] := by
  unfold render
  generalize h.resolve language theme = answer at hresolve
  obtain ⟨_ | entry, h'⟩ := answer
  · exact ⟨rfl, rfl⟩
  · cases hresolve

theorem render_trace_of_ok {h : Highlighter β σ} {language theme : String} {entry : Cache.Entry σ}
    (hresolve : (h.resolve language theme).1 = .ok entry) (code : String) (appearance : Appearance) :
    let done := throughFirst Step.fails (entry.grammar.steps entry.theme (Text.Lines.split code) entry.grammar.start)
    (h.render code language theme appearance).calls = done.filterMap Step.call? ∧
    (h.render code language theme appearance).lookups = (done.filterMap Step.ref?).eraseDups := by
  unfold render
  generalize h.resolve language theme = answer at hresolve
  obtain ⟨_ | entry', h'⟩ := answer
  · cases hresolve
  · cases hresolve
    have hpass := Pass.run_steps .collect (.start entry.grammar code h'.config.trace) #[] rfl
      (Painter.After.new entry.theme appearance) rfl
    dsimp only
    generalize Pass.run .collect _ _ _ = pass at hpass ⊢
    rcases pass.result with _ | ⟨⟩ <;> exact hpass

/-- What a rendering gives the grammar and asks of the theme is told by its pair, and does not depend on the
appearance. -/
theorem render_trace_congr {h h' : Highlighter β σ} {language theme : String}
    (hresolve : (h.resolve language theme).1 = (h'.resolve language theme).1) (code : String) (a b : Appearance) :
    (h.render code language theme a).calls = (h'.render code language theme b).calls ∧
    (h.render code language theme a).lookups = (h'.render code language theme b).lookups := by
  cases hpair : (h'.resolve language theme).1 with
  | error e =>
    rw [hpair] at hresolve
    obtain ⟨hcalls, hlookups⟩ := render_trace_of_error hresolve code a
    obtain ⟨hcalls', hlookups'⟩ := render_trace_of_error hpair code b
    exact ⟨hcalls.trans hcalls'.symm, hlookups.trans hlookups'.symm⟩
  | ok entry =>
    rw [hpair] at hresolve
    obtain ⟨hcalls, hlookups⟩ := render_trace_of_ok hresolve code a
    obtain ⟨hcalls', hlookups'⟩ := render_trace_of_ok hpair code b
    exact ⟨hcalls.trans hcalls'.symm, hlookups.trans hlookups'.symm⟩

theorem result_eq_error_iff_of_ok {h : Highlighter β σ} {language theme : String} {entry : Cache.Entry σ}
    (hresolve : (h.resolve language theme).1 = .ok entry) (code : String) (appearance : Appearance) {e : Failure} :
    (h.render code language theme appearance).result = .error e ↔
      (entry.grammar.steps entry.theme (Text.Lines.split code) entry.grammar.start).findSome? Step.failure = some e := by
  rw [render_result, hresolve, entry.grammar.findSome?_failure_steps entry.theme appearance]
  dsimp only
  rcases entry.grammar.renderLines entry.theme appearance (Text.Lines.split code) entry.grammar.start
    with ⟨items, e' | ⟨⟩⟩
  · simp only [Except.error.injEq, Option.some.injEq]
  · simp

/-- **A rendering ends with its first failure in document order.** Whatever a renderer has been used for, if its
backend answers by the name alone, a rendering does the steps of the text up to the first that fails, and none
after it: no later line is given to the grammar, and no later colour is asked for. It fails if and only if one of
the steps does, and then as the first of these. No step is about a colour that loses the fold of its rules, or that
belongs to a token without a character. -/
theorem render_first_failure {backend : Backend β σ} {config : Config} {h : Highlighter β σ}
    (hstable : backend.Stable) (hreach : Reachable backend config h) (code language theme : String)
    (appearance : Appearance) (state : β) :
    let steps := backend.steps config.fallbackLanguage state code language theme
    let done := throughFirst Step.fails steps
    let rendering := h.render code language theme appearance
    (∀ e, rendering.result = .error e ↔ steps.findSome? Step.failure = some e) ∧
    rendering.calls = done.filterMap Step.call? ∧
    rendering.lookups = (done.filterMap Step.ref?).eraseDups ∧
    ∀ step ∈ steps, ∀ line token ref, step.action = .color line token ref →
      Text.Bytes.clamp line token.start token.stop ≠ none ∧
      ∃ loaded, (backend.loadTheme theme state).1 = .ok loaded ∧
        ((loaded.rulesFor token.scopes).findSome? Rule.foreground = some ref ∨
          (loaded.rulesFor token.scopes).findSome? Rule.background = some ref) := by
  intro steps done rendering
  have hpair := hreach.resolve_pair hstable language theme state
  rcases hresolve : (h.resolve language theme).1 with e' | entry
  · rw [hresolve] at hpair
    obtain ⟨hfirst, hcalls, hrefs⟩ := Backend.steps_of_pairFor_error hpair.symm code
    obtain ⟨hnoCalls, hnoLookups⟩ := render_trace_of_error hresolve code appearance
    refine ⟨fun e => ?_, hnoCalls.trans hcalls.symm, ?_, fun _ hstep _ _ _ => Backend.wins_of_mem_steps hstep⟩
    · have hresult : rendering.result = .error e' := by
        rw [render_result, hresolve]
      rw [hresult, hfirst, Except.error.injEq, Option.some.injEq]
    · rw [hrefs]
      exact hnoLookups
  · rw [hresolve] at hpair
    have hsteps : steps = _ := Backend.steps_of_pairFor_ok hpair.symm code
    have hdone : done = _ := congrArg (throughFirst Step.fails) hsteps
    obtain ⟨hcalls, hlookups⟩ := render_trace_of_ok hresolve code appearance
    refine ⟨fun e => ?_, ?_, ?_, fun _ hstep _ _ _ => Backend.wins_of_mem_steps hstep⟩
    · rw [hsteps, List.findSome?_cons, List.findSome?_cons]
      exact result_eq_error_iff_of_ok hresolve code appearance
    · rw [hdone]
      exact hcalls
    · rw [hdone]
      exact hlookups

end Highlighter

/-- A theme that shows everything in a colour that it has no text for. -/
def Theme.colorless : Theme where
  name := "colorless"
  rulesFor _ := [{ foreground := some ⟨7⟩ }]
  colorText _ := none

/-- Makes one token of a line, and gives up at the line `stop`. -/
def Grammar.stopping : Grammar Unit where
  scope := "text.stopping"
  start := ()
  tokenize _ line _ :=
    if line = "stop" then .error (.tokenizer "stopped")
    else .ok ([⟨0, Text.Bytes.size line.toList, []⟩], ())

/-- Two failures compete, and the colour wins, which is on the line before. The line before that has no
character to show. -/
theorem Highlighter.render_first_failure_competing :
    ((new (.single .colorless .stopping) {} ()).render "\na\nstop" "stopping" "colorless" .light).result =
      .error (.error (.color (.missing ⟨7⟩))) ∧
    ((new (.single .colorless .stopping) {} ()).render "\na\nstop" "stopping" "colorless" .light).calls.map (·.line) =
      ["", "a"] := by
  obtain ⟨hresult, hcalls, -, -⟩ :=
    render_first_failure (Backend.stable_single .colorless .stopping) (.new ()) "\na\nstop" "stopping" "colorless"
      .light ()
  refine ⟨(hresult _).2 rfl, ?_⟩
  rw [hcalls]
  rfl

end Highlight
