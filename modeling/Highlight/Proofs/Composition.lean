/-
Renderings put together. A text that goes on after a line feed is rendered as
its beginning is, and from there on as a pass goes over the rest, from the state
that the grammar was in (`Grammar.renderLines_append`). If the beginning fails,
so does the whole, in the same way (`Highlighter.render_append`).
-/
import Highlight.Proofs.Rendering

namespace Highlight

namespace Grammar

variable {grammar : Grammar σ} {theme : Theme} {appearance : Appearance} {lines : List String} {state last : σ}
  {items : List Item} {lexed : List TokenLine}

/-- What comes after lines that fail is not looked at. -/
theorem renderLines_append_of_error {e : RenderError}
    (h : grammar.renderLines theme appearance lines state = (items, .error e)) (rest : List String) :
    grammar.renderLines theme appearance (lines ++ rest) state = (items, .error e) := by
  induction lines generalizing state items with
  | nil => cases h
  | cons line lines ih =>
    rw [List.cons_append]
    rcases htokens : grammar.tokenize .unbounded line state with e' | ⟨tokens, next⟩
    · rw [renderLines_of_tokenize_error htokens] at h ⊢
      exact h
    · rcases hpaint : theme.paint appearance line tokens with ⟨group, e' | _⟩
      · rw [renderLines_of_paint_error htokens hpaint] at h ⊢
        exact h
      · rw [renderLines_of_paint_ok htokens hpaint, Prod.mk.injEq] at h
        obtain ⟨rfl, hfails⟩ := h
        rw [renderLines_of_paint_ok htokens hpaint, ih (Prod.ext rfl hfails)]

/-- After lines that do not fail, the rest is rendered from the state that they leave. -/
theorem renderLines_append (hlex : grammar.lexLines lines state = .ok (lexed, last))
    (h : grammar.renderLines theme appearance lines state = (items, .ok ())) (rest : List String) :
    grammar.renderLines theme appearance (lines ++ rest) state =
      (items ++ (grammar.renderLines theme appearance rest last).1, (grammar.renderLines theme appearance rest last).2) := by
  induction lines generalizing state items lexed with
  | nil =>
    cases hlex
    cases h
    rfl
  | cons line lines ih =>
    obtain ⟨tokens, next, others, htokens, hothers, rfl⟩ := lexLines_cons_eq_ok_iff.1 hlex
    rcases hpaint : theme.paint appearance line tokens with ⟨group, e | _⟩
    · rw [renderLines_of_paint_error htokens hpaint] at h
      cases h
    · rw [renderLines_of_paint_ok htokens hpaint, Prod.mk.injEq] at h
      obtain ⟨rfl, hok⟩ := h
      rw [List.cons_append, renderLines_of_paint_ok htokens hpaint, ih hothers (Prod.ext rfl hok), List.append_assoc]

end Grammar

/-- A pass that comes to its end leaves the state that its lines, cut one after the other, leave. -/
theorem Pass.lexLines_of_run {sink : Sink κ} {lexing : Lexing σ} {p : Painter} {k : κ}
    (hlive : lexing.failed = false) (hok : (run sink lexing p k).result = .ok ()) :
    ∃ lexed, lexing.grammar.lexLines lexing.rest lexing.state = .ok (lexed, (run sink lexing p k).lexing.state) := by
  generalize hrest : lexing.rest = lines
  induction lines generalizing lexing p k with
  | nil =>
    rw [run_of_none (Lexing.next_of_nil hrest)]
    exact ⟨[], rfl⟩
  | cons line lines ih =>
    cases htokens : lexing.grammar.tokenize .unbounded line lexing.state with
    | error e =>
      obtain ⟨after, hnext, -⟩ := Lexing.next_of_error hlive hrest htokens
      rw [run_of_error hnext] at hok
      cases hok
    | ok answer =>
      obtain ⟨tokens, state⟩ := answer
      obtain ⟨after, hnext, hgrammar, hlines, hstate, hlive', -⟩ := Lexing.next_of_ok hlive hrest htokens
      rcases hline : Painter.line sink line tokens p k with ⟨e | _, q, k'⟩
      · rw [run_of_line_error hnext hline] at hok
        cases hok
      · rw [run_of_line_ok hnext hline] at hok ⊢
        obtain ⟨lexed, hlexed⟩ := ih hlive' hok hlines
        rw [hgrammar, hstate] at hlexed
        exact ⟨_, Grammar.lexLines_cons_eq_ok_iff.2 ⟨tokens, state, lexed, htokens, hlexed, rfl⟩⟩

namespace Highlighter

/-- The pass of a rendering over the lines of a text, with the grammar in some state before the first of them. -/
def pass (h : Highlighter β σ) (entry : Cache.Entry σ) (appearance : Appearance) (text : String) (state : σ) :
    Pass σ (Array Item) :=
  .run .collect { Lexing.start entry.grammar text h.config.trace with state } { theme := entry.theme, appearance } #[]

variable {h : Highlighter β σ} {entry : Cache.Entry σ} {appearance : Appearance} {text : String} {state : σ}

/-- A pass gives what the lines have without a memory of colours. -/
theorem renderLines_of_pass (h : Highlighter β σ) (entry : Cache.Entry σ) (appearance : Appearance) (text : String)
    (state : σ) :
    entry.grammar.renderLines entry.theme appearance (Text.Lines.split text) state =
      ((h.pass entry appearance text state).sink.toList, (h.pass entry appearance text state).result) := by
  obtain ⟨hresult, hsink⟩ := Pass.run_eq .collect { Lexing.start entry.grammar text h.config.trace with state } #[] rfl
    (Painter.After.new entry.theme appearance)
  refine Prod.ext ?_ hresult.symm
  rw [pass, hsink, Sink.toList_collect, List.nil_append]
  rfl

/-- A pass that comes to its end leaves the state that its lines, cut one after the other, leave. -/
theorem lexLines_of_pass (hok : (h.pass entry appearance text state).result = .ok ()) :
    ∃ lexed, entry.grammar.lexLines (Text.Lines.split text) state =
      .ok (lexed, (h.pass entry appearance text state).lexing.state) :=
  Pass.lexLines_of_run rfl hok

/-- Rendering a text is a pass over it from the state that the grammar starts from. -/
theorem render_result_of_resolve {language theme : String} (hresolve : (h.resolve language theme).1 = .ok entry)
    (appearance : Appearance) (text : String) :
    (h.render text language theme appearance).result =
      match (h.pass entry appearance text entry.grammar.start).result with
      | .error e => .error (.error e)
      | .ok () => .ok
        { items := (h.pass entry appearance text entry.grammar.start).sink.toList, source := some entry.source } := by
  rw [h.render_result, hresolve]
  dsimp only
  rw [h.renderLines_of_pass entry appearance text entry.grammar.start]
  cases (h.pass entry appearance text entry.grammar.start).result <;> rfl

theorem pass_append_of_error {a : String} {e : RenderError}
    (hfails : (h.pass entry appearance a state).result = .error e) (b : String) :
    (h.pass entry appearance (a ++ "\n" ++ b) state).result = .error e := by
  have hlines := h.renderLines_of_pass entry appearance a state
  have hwhole := h.renderLines_of_pass entry appearance (a ++ "\n" ++ b) state
  rw [hfails] at hlines
  rw [Text.Lines.split_append, Grammar.renderLines_append_of_error hlines] at hwhole
  exact (congrArg Prod.snd hwhole).symm

/-- A pass over a text that goes on is one over its beginning, and then one over the rest. -/
theorem pass_append {a : String} (hok : (h.pass entry appearance a state).result = .ok ()) (b : String) :
    let first := h.pass entry appearance a state
    let rest := h.pass entry appearance b first.lexing.state
    (h.pass entry appearance (a ++ "\n" ++ b) state).result = rest.result ∧
    (h.pass entry appearance (a ++ "\n" ++ b) state).sink.toList = first.sink.toList ++ rest.sink.toList := by
  intro first rest
  have hlines := h.renderLines_of_pass entry appearance a state
  have hwhole := h.renderLines_of_pass entry appearance (a ++ "\n" ++ b) state
  obtain ⟨lexed, hlex⟩ := lexLines_of_pass hok
  rw [hok] at hlines
  rw [Text.Lines.split_append, Grammar.renderLines_append hlex hlines, h.renderLines_of_pass] at hwhole
  exact ⟨(congrArg Prod.snd hwhole).symm, (congrArg Prod.fst hwhole).symm⟩

/-- **A text that goes on is rendered as its beginning, and then the rest.** If the beginning fails, then the whole
fails with the same error. Otherwise the beginning has the items of its lines, which are cut one after the other and
leave a state; the whole has these items, followed by those of a pass over the rest from that state, or fails as this
pass does. The pass gives what the lines of the rest have without any memory of colours. If the state is the one that
the grammar starts from, then it comes to rendering the rest by itself. -/
theorem render_append (h : Highlighter β σ) (a b language theme : String) (appearance : Appearance) :
    let whole := (h.render (a ++ "\n" ++ b) language theme appearance).result
    (∀ e, (h.render a language theme appearance).result = .error e → whole = .error e) ∧
    ∀ doc, (h.render a language theme appearance).result = .ok doc →
      ∃ entry, (h.resolve language theme).1 = .ok entry ∧
        let left := (h.pass entry appearance a entry.grammar.start).lexing.state
        let rest := h.pass entry appearance b left
        (∃ lexed, entry.grammar.lexLines (Text.Lines.split a) entry.grammar.start = .ok (lexed, left)) ∧
        entry.grammar.renderLines entry.theme appearance (Text.Lines.split a) entry.grammar.start =
          (doc.items, .ok ()) ∧
        entry.grammar.renderLines entry.theme appearance (Text.Lines.split b) left = (rest.sink.toList, rest.result) ∧
        (whole = match rest.result with
          | .error e => .error (.error e)
          | .ok () => .ok { doc with items := doc.items ++ rest.sink.toList }) ∧
        (left = entry.grammar.start →
          whole = (h.render b language theme appearance).result.map fun tail =>
            { doc with items := doc.items ++ tail.items }) := by
  intro whole
  cases hresolve : (h.resolve language theme).1 with
  | error e =>
    have hfails : ∀ text, (h.render text language theme appearance).result = .error e := fun text => by
      rw [h.render_result, hresolve]
    refine ⟨fun e' he => ?_, fun doc hdoc => ?_⟩
    · rw [← he, hfails a]
      exact hfails _
    · rw [hfails] at hdoc
      cases hdoc
  | ok entry =>
    have hrender := render_result_of_resolve hresolve appearance
    have hwhole : whole = _ := hrender (a ++ "\n" ++ b)
    cases hfirst : (h.pass entry appearance a entry.grammar.start).result with
    | error e =>
      have ha := hrender a
      rw [hfirst] at ha
      rw [pass_append_of_error hfirst] at hwhole
      refine ⟨fun e' he => hwhole.trans (ha.symm.trans he), fun doc hdoc => ?_⟩
      rw [ha] at hdoc
      cases hdoc
    | ok =>
      have ha := hrender a
      rw [hfirst] at ha
      obtain ⟨hresult, hitems⟩ := pass_append hfirst b
      rw [hresult, hitems] at hwhole
      refine ⟨fun e he => ?_, fun doc hdoc => ⟨entry, rfl, ?_⟩⟩
      · rw [ha] at he
        cases he
      · rw [ha] at hdoc
        cases hdoc
        have hlines := h.renderLines_of_pass entry appearance a entry.grammar.start
        rw [hfirst] at hlines
        refine ⟨lexLines_of_pass hfirst, hlines, h.renderLines_of_pass .., hwhole, fun hleft => ?_⟩
        rw [hwhole, hleft, hrender b]
        cases (h.pass entry appearance b entry.grammar.start).result <;> rfl

end Highlighter

end Highlight
