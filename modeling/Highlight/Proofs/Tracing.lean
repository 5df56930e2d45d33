/-
What a rendering logs. Tracing a rendering adds one event for each line that the
grammar cuts into tokens, with the number and the size of the line, and changes
nothing else (`Highlighter.render_traced`).

`Pass.run_events`: the events of a pass are read off of the calls of the grammar
that succeeded. Everything else that a pass leaves does not depend on the trace,
since it is told by the lines and the state that the pass starts from.
-/
import Highlight.Proofs.Composition
import Highlight.Proofs.FirstFailure

namespace Highlight

/-- The size of the line that an event tells of, if it tells of one. -/
def Event.lineSize? : Event → Option Nat
  | .lineTokenized _ _ size _ => some size
  | _ => none

namespace Grammar

variable {grammar : Grammar σ}

/-- The lines among some calls that were cut into tokens. -/
def tokenized (grammar : Grammar σ) (calls : List (Call σ)) : List TokenLine :=
  calls.filterMap fun call => (grammar.yield call).toOption

/-- The events of lines that were cut into tokens, numbered on from `first`. -/
def lineEvents (grammar : Grammar σ) (first : Nat) (lines : List TokenLine) : List Event :=
  (lines.zipIdx first).map fun (line, index) =>
    .lineTokenized grammar.scope index (Text.Bytes.size line.text.toList) line.tokens.length

theorem tokenized_of_error {line : String} {state : σ} {e : RenderError}
    (h : grammar.tokenize .unbounded line state = .error e) : grammar.tokenized [⟨line, state, .unbounded⟩] = [] := by
  rw [tokenized, List.filterMap_cons_none, List.filterMap_nil]
  rw [yield_of_error h]
  rfl

theorem tokenized_cons_of_ok {line : String} {state next : σ} {tokens : List Token}
    (h : grammar.tokenize .unbounded line state = .ok (tokens, next)) (calls : List (Call σ)) :
    grammar.tokenized (⟨line, state, .unbounded⟩ :: calls) = ⟨line, tokens⟩ :: grammar.tokenized calls := by
  rw [tokenized, List.filterMap_cons_some]
  · rfl
  · rw [yield_of_ok h]
    rfl

theorem filterMap_lineSize?_lineEvents (grammar : Grammar σ) (first : Nat) (lines : List TokenLine) :
    (grammar.lineEvents first lines).filterMap Event.lineSize? =
      lines.map fun line => Text.Bytes.size line.text.toList := by
  have hsizes : Event.lineSize? ∘ (fun (line, index) => Event.lineTokenized grammar.scope index
      (Text.Bytes.size line.text.toList) line.tokens.length) =
        fun entry : TokenLine × Nat => some (Text.Bytes.size entry.1.text.toList) := rfl
  rw [lineEvents, List.filterMap_map, hsizes, List.filterMap_eq_map']
  conv_rhs => rw [← List.zipIdx_map_fst first lines, List.map_map]
  rfl

theorem length_lineEvents (grammar : Grammar σ) (first : Nat) (lines : List TokenLine) :
    (grammar.lineEvents first lines).length = lines.length := by
  rw [lineEvents, List.length_map, List.length_zipIdx]

end Grammar

namespace Lexing

variable {lexing : Lexing σ} {line : String} {lines : List String}

theorem events_next_of_error (hlive : lexing.failed = false) (hrest : lexing.rest = line :: lines) {e : RenderError}
    (htokens : lexing.grammar.tokenize .unbounded line lexing.state = .error e) :
    lexing.next.2.events = lexing.events := by
  simp [next, hlive, hrest, htokens]

theorem events_next_of_ok (hlive : lexing.failed = false) (hrest : lexing.rest = line :: lines) {tokens : List Token}
    {state : σ} (htokens : lexing.grammar.tokenize .unbounded line lexing.state = .ok (tokens, state)) :
    lexing.next.2.index = lexing.index + 1 ∧ lexing.next.2.trace = lexing.trace ∧
    lexing.next.2.events =
      lexing.events ++ if lexing.trace then lexing.grammar.lineEvents lexing.index [⟨line, tokens⟩] else [] := by
  cases htrace : lexing.trace <;> simp [next, hlive, hrest, htokens, htrace, Grammar.lineEvents, lineEvent]

end Lexing

/-- **The events of a pass.** A traced pass logs one event for each call of the grammar that succeeds, in order, and
one that is not traced logs nothing. These calls are for the first of the lines, and for all of them if the pass comes to
its end. -/
theorem Pass.run_events (sink : Sink κ) (lexing : Lexing σ) (p : Painter) (k : κ) (hlive : lexing.failed = false) :
    ∃ calls, (run sink lexing p k).lexing.calls = lexing.calls ++ calls ∧
      (run sink lexing p k).lexing.events = lexing.events ++
        (if lexing.trace then lexing.grammar.lineEvents lexing.index (lexing.grammar.tokenized calls) else []) ∧
      (lexing.grammar.tokenized calls).map (·.text) <+: lexing.rest ∧
      ((run sink lexing p k).result = .ok () → (lexing.grammar.tokenized calls).map (·.text) = lexing.rest) := by
  generalize hrest : lexing.rest = lines
  induction lines generalizing lexing p k with
  | nil =>
    rw [run_of_none (Lexing.next_of_nil hrest)]
    exact ⟨[], by simp, by simp [Grammar.tokenized, Grammar.lineEvents], List.nil_prefix, fun _ => rfl⟩
  | cons line lines ih =>
    cases htokens : lexing.grammar.tokenize .unbounded line lexing.state with
    | error e =>
      obtain ⟨after, hnext, -, -, -, hcalls⟩ := Lexing.next_of_error hlive hrest htokens
      have hevents := Lexing.events_next_of_error hlive hrest htokens
      rw [hnext] at hevents
      rw [run_of_error hnext]
      refine ⟨_, hcalls, ?_⟩
      rw [Grammar.tokenized_of_error htokens]
      exact ⟨by simpa [Grammar.lineEvents] using hevents, List.nil_prefix, fun hok => by cases hok⟩
    | ok answer =>
      obtain ⟨tokens, state⟩ := answer
      obtain ⟨after, hnext, hgrammar, hlines, -, hlive', hcalls⟩ := Lexing.next_of_ok hlive hrest htokens
      obtain ⟨hindex, htrace, hevents⟩ := Lexing.events_next_of_ok hlive hrest htokens
      rw [hnext] at hindex htrace hevents
      rcases hline : Painter.line sink line tokens p k with ⟨e | _, q, k'⟩
      · -- The line was tokenized, so it is logged, though it is not painted to its end.
        rw [run_of_line_error hnext hline]
        refine ⟨_, hcalls, ?_⟩
        rw [Grammar.tokenized_cons_of_ok htokens]
        exact ⟨hevents, by simp [Grammar.tokenized], fun hok => by cases hok⟩
      · rw [run_of_line_ok hnext hline]
        obtain ⟨calls, hcalls', hevents', hbefore, hall⟩ := ih after q k' hlive' hlines
        rw [hgrammar] at hevents' hbefore hall
        refine ⟨⟨line, lexing.state, .unbounded⟩ :: calls, ?_, ?_, ?_, fun hok => ?_⟩
        · rw [hcalls', hcalls, List.append_assoc, List.singleton_append]
        · rw [hevents', hevents, htrace, hindex, Grammar.tokenized_cons_of_ok htokens]
          cases lexing.trace <;> simp [Grammar.lineEvents]
        · rw [Grammar.tokenized_cons_of_ok htokens]
          exact List.cons_prefix_cons.2 ⟨rfl, hbefore⟩
        · rw [Grammar.tokenized_cons_of_ok htokens, List.map_cons, hall hok]

namespace Highlighter

/-- The renderer with tracing switched on or off. -/
def tracing (h : Highlighter β σ) (on : Bool) : Highlighter β σ := { h with config := { h.config with trace := on } }

variable {language theme : String} {entry : Cache.Entry σ}

theorem session_of_resolve_error (h : Highlighter β σ) {e : Failure}
    (hresolve : (h.resolve language theme).1 = .error e) (code : String) (appearance : Appearance) :
    (h.render code language theme appearance).highlighter.session = (h.resolve language theme).2.session := by
  unfold render
  generalize h.resolve language theme = answer at hresolve ⊢
  obtain ⟨_ | entry, h'⟩ := answer
  · rfl
  · cases hresolve

/-- The event that a rendering is done, if it succeeds. -/
def doneEvents (entry : Cache.Entry σ) (code language theme : String) (appearance : Appearance) :
    Except Failure Document → List Event
  | .ok doc => [.renderDone language entry.grammar.scope theme appearance (Text.Bytes.size code.toList) doc.items.length]
  | .error _ => []

/-- A rendering that has its pair logs the events of its pass, and if it succeeds also that it is done. -/
theorem session_of_resolve_ok (h : Highlighter β σ) (hresolve : (h.resolve language theme).1 = .ok entry)
    (code : String) (appearance : Appearance) :
    let resolved := (h.resolve language theme).2.session
    let pass := h.pass entry appearance code entry.grammar.start
    let rendering := h.render code language theme appearance
    rendering.calls = pass.lexing.calls ∧
    rendering.highlighter.session =
      { resolved with
        events := resolved.events ++ pass.lexing.events ++
          doneEvents entry code language theme appearance rendering.result } ∧
    (pass.result = .ok () ↔ ∃ doc, rendering.result = .ok doc) := by
  have hconfig : (h.resolve language theme).2.config = h.config := rfl
  unfold render pass
  generalize h.resolve language theme = answer at hresolve hconfig ⊢
  obtain ⟨_ | entry', h'⟩ := answer
  · cases hresolve
  · cases hresolve
    dsimp only at hconfig ⊢
    rw [hconfig]
    have hstart : { Lexing.start entry.grammar code h.config.trace with state := entry.grammar.start } =
        Lexing.start entry.grammar code h.config.trace := rfl
    rw [hstart]
    generalize Pass.run .collect _ _ _ = pass
    rcases pass.result with e | ⟨⟩
    · exact ⟨rfl, by simp [doneEvents], by simp⟩
    · exact ⟨rfl, by simp [doneEvents, Session.log], by simp⟩

/-- The log of a rendering that has its pair, read off of the calls that it makes of the grammar. -/
theorem render_log (h : Highlighter β σ) (hresolve : (h.resolve language theme).1 = .ok entry) (code : String)
    (appearance : Appearance) :
    let resolved := (h.resolve language theme).2.session
    let rendering := h.render code language theme appearance
    let tokenized := entry.grammar.tokenized rendering.calls
    rendering.highlighter.session =
      { resolved with
        events := resolved.events ++ (if h.config.trace then entry.grammar.lineEvents 0 tokenized else []) ++
          doneEvents entry code language theme appearance rendering.result } ∧
    tokenized.map (·.text) <+: Text.Lines.split code ∧
    ∀ doc, rendering.result = .ok doc → tokenized.map (·.text) = Text.Lines.split code := by
  intro resolved rendering tokenized
  obtain ⟨hcalls, hsession, hdone⟩ := h.session_of_resolve_ok hresolve code appearance
  obtain ⟨calls, hcalls', hevents, hbefore, hall⟩ := Pass.run_events .collect
    { Lexing.start entry.grammar code h.config.trace with state := entry.grammar.start }
    { theme := entry.theme, appearance } #[] rfl
  have htokenized : tokenized = entry.grammar.tokenized calls :=
    congrArg entry.grammar.tokenized (hcalls.trans hcalls')
  rw [htokenized]
  refine ⟨hsession.trans ?_, hbefore, fun doc hdoc => hall (hdone.2 ⟨doc, hdoc⟩)⟩
  rw [pass, hevents]
  rfl

/-- What a rendering returns, asks for and caches is the same under any two settings of the trace. -/
theorem render_tracing_congr (h : Highlighter β σ) (code language theme : String) (appearance : Appearance)
    (on off : Bool) :
    let traced := (h.tracing on).render code language theme appearance
    let quiet := (h.tracing off).render code language theme appearance
    traced.result = quiet.result ∧ traced.calls = quiet.calls ∧ traced.lookups = quiet.lookups ∧
    traced.highlighter.cache = quiet.highlighter.cache := by
  intro traced quiet
  have hsame : ((h.tracing on).resolve language theme).1 = ((h.tracing off).resolve language theme).1 := rfl
  obtain ⟨hcalls, hlookups⟩ := render_trace_congr hsame code appearance appearance
  refine ⟨?_, hcalls, hlookups, ?_⟩
  · rw [render_result, render_result]
    rfl
  · rw [((h.tracing on).render_highlighter code language theme appearance).2.2,
      ((h.tracing off).render_highlighter code language theme appearance).2.2]
    rfl

/-- **Tracing is faithful, and changes nothing else.** Traced or not, a rendering returns the same, asks for the same and
leaves the same cache. What it logs begins with what resolving its pair logs, none of it at the level of `info`, and
ends with one event that the rendering is done, if and only if it succeeds. Between these a traced rendering logs one
event for each line that the grammar cut into tokens, in order from the first line of the text on, with its number and
its size, whether or not the line is then painted to its end. If the rendering succeeds, then the sizes of the lines
and one for each line feed make up the size of the text. -/
theorem render_traced (h : Highlighter β σ) (code language theme : String) (appearance : Appearance) :
    let traced := (h.tracing true).render code language theme appearance
    let quiet := (h.tracing false).render code language theme appearance
    (traced.result = quiet.result ∧ traced.calls = quiet.calls ∧ traced.lookups = quiet.lookups) ∧
    (traced.highlighter.cache = quiet.highlighter.cache ∧
      traced.highlighter.session.state = quiet.highlighter.session.state ∧
      traced.highlighter.session.loads = quiet.highlighter.session.loads) ∧
    ∃ opening lines closing : List Event,
      traced.highlighter.session.events = h.session.events ++ opening ++ lines ++ closing ∧
      quiet.highlighter.session.events = h.session.events ++ opening ++ closing ∧
      (∀ event ∈ opening, event.level ≠ .info) ∧
      match (h.resolve language theme).1 with
      | .error e => traced.result = .error e ∧ lines = [] ∧ closing = []
      | .ok entry =>
        let tokenized := entry.grammar.tokenized traced.calls
        tokenized.map (·.text) <+: Text.Lines.split code ∧
        lines = entry.grammar.lineEvents 0 tokenized ∧
        closing = doneEvents entry code language theme appearance traced.result ∧
        ∀ doc, traced.result = .ok doc →
          (lines.filterMap Event.lineSize?).sum + lines.length = Text.Bytes.size code.toList + 1 := by
  intro traced quiet
  obtain ⟨hresult, hcalls, hlookups, hcache⟩ := h.render_tracing_congr code language theme appearance true false
  obtain ⟨opening, hopening, hlevels⟩ := h.cache.exists_events_of_resolve h.backend ⟨language, theme⟩ h.session
  have hresolved : (h.resolve language theme).2.session.events = h.session.events ++ opening := hopening
  refine ⟨⟨hresult, hcalls, hlookups⟩, ?_⟩
  cases hresolve : (h.resolve language theme).1 with
  | error e =>
    have htraced : traced.highlighter.session = (h.resolve language theme).2.session :=
      (h.tracing true).session_of_resolve_error hresolve code appearance
    have hquiet : quiet.highlighter.session = (h.resolve language theme).2.session :=
      (h.tracing false).session_of_resolve_error hresolve code appearance
    have herror : traced.result = .error e := by
      have hresolve' : ((h.tracing true).resolve language theme).1 = .error e := hresolve
      rw [render_result, hresolve']
    rw [htraced, hquiet]
    refine ⟨⟨hcache, rfl, rfl⟩, opening, [], [], ?_, ?_, hlevels, herror, rfl, rfl⟩
    · simpa using hresolved
    · simpa using hresolved
  | ok entry =>
    obtain ⟨htraced, hbefore, hall⟩ := (h.tracing true).render_log hresolve code appearance
    obtain ⟨hquiet, -⟩ := (h.tracing false).render_log hresolve code appearance
    rw [htraced, hquiet, ← hresult]
    refine ⟨⟨hcache, rfl, rfl⟩, opening, entry.grammar.lineEvents 0 (entry.grammar.tokenized traced.calls),
      doneEvents entry code language theme appearance traced.result, congrArg (· ++ _ ++ _) hresolved, ?_, hlevels,
      hbefore, rfl, rfl, fun doc hdoc => ?_⟩
    · rw [← hresolved]
      exact congrArg (· ++ _) (List.append_nil _)
    · rw [Grammar.filterMap_lineSize?_lineEvents, ← Text.Lines.sum_size_split, ← hall doc hdoc, List.map_map,
        List.length_map, Grammar.length_lineEvents]
      rfl

end Highlighter

end Highlight
