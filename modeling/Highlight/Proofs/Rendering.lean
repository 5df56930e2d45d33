/-
Rendering without a memory. `Grammar.renderLines` is what a rendering should
put into its sink, and how it should end: each line is cut into tokens from the
state that the line before left, and painted with every colour decoded anew.

`Pass.run_eq`: a pass over the lines does just this, for any sink.
`render_result`: so does a rendering, whatever the cache held before.
-/
import Highlight.Highlighter
import Highlight.Proofs.Lexing
import Highlight.Proofs.Painting
import Highlight.Proofs.Text.Lines
import Highlight.Proofs.Text.Bytes

namespace Highlight

/-- What the lines of a text put into a sink, and how that ends. -/
def Grammar.renderLines (grammar : Grammar σ) (theme : Theme) (appearance : Appearance) :
    List String → σ → List Item × Except RenderError Unit
  | [], _ => ([], .ok ())
  | line :: lines, state =>
    match grammar.tokenize .unbounded line state with
    | .error e => ([], .error e)
    | .ok (tokens, next) =>
      match theme.paint appearance line tokens with
      | (items, .error e) => (items, .error (.color e))
      | (items, .ok ()) =>
        (items ++ (grammar.renderLines theme appearance lines next).1, (grammar.renderLines theme appearance lines next).2)

/-- The lines of a text with their tokens, each cut from the state that the line before left, and the
state that the last one leaves. -/
def Grammar.lexLines (grammar : Grammar σ) : List String → σ → Except RenderError (List TokenLine × σ)
  | [], state => .ok ([], state)
  | line :: lines, state => do
    let (tokens, next) ← grammar.tokenize .unbounded line state
    let (rest, last) ← grammar.lexLines lines next
    return (⟨line, tokens⟩ :: rest, last)

def Theme.itemsOfLine (theme : Theme) (appearance : Appearance) (line : TokenLine) : Except ColorError (List Item) :=
  theme.itemsOf appearance line.text line.tokens

namespace Grammar

variable {grammar : Grammar σ} {theme : Theme} {appearance : Appearance} {line : String} {lines : List String}
  {state next : σ} {tokens : List Token} {items : List Item}

theorem renderLines_of_tokenize_error {e : RenderError} (h : grammar.tokenize .unbounded line state = .error e) :
    grammar.renderLines theme appearance (line :: lines) state = ([], .error e) := by
  rw [renderLines, h]

theorem renderLines_of_paint_error {e : ColorError} (h : grammar.tokenize .unbounded line state = .ok (tokens, next))
    (hpaint : theme.paint appearance line tokens = (items, .error e)) :
    grammar.renderLines theme appearance (line :: lines) state = (items, .error (.color e)) := by
  simp only [renderLines, h, hpaint]

theorem renderLines_of_paint_ok (h : grammar.tokenize .unbounded line state = .ok (tokens, next))
    (hpaint : theme.paint appearance line tokens = (items, .ok ())) :
    grammar.renderLines theme appearance (line :: lines) state =
      (items ++ (grammar.renderLines theme appearance lines next).1,
        (grammar.renderLines theme appearance lines next).2) := by
  simp only [renderLines, h, hpaint]

theorem lexLines_cons_eq_ok_iff {lexed : List TokenLine} {last : σ} :
    grammar.lexLines (line :: lines) state = .ok (lexed, last) ↔
      ∃ tokens next rest, grammar.tokenize .unbounded line state = .ok (tokens, next) ∧
        grammar.lexLines lines next = .ok (rest, last) ∧ lexed = ⟨line, tokens⟩ :: rest := by
  rw [lexLines]
  refine ⟨fun h => ?_, ?_⟩
  · rcases htokens : grammar.tokenize .unbounded line state with e | ⟨tokens, next⟩
    · simp [htokens] at h
    · rcases hrest : grammar.lexLines lines next with e | ⟨rest, last'⟩
      · simp [htokens, hrest] at h
      · simp only [htokens, hrest, bind_ok] at h
        cases h
        exact ⟨tokens, next, rest, rfl, hrest, rfl⟩
  · rintro ⟨tokens, next, rest, htokens, hrest, rfl⟩
    simp only [htokens, hrest, bind_ok]
    rfl

theorem map_text_of_lexLines {lexed : List TokenLine} {last : σ} (h : grammar.lexLines lines state = .ok (lexed, last)) :
    lexed.map (·.text) = lines := by
  induction lines generalizing state lexed with
  | nil =>
    cases h
    rfl
  | cons line lines ih =>
    obtain ⟨tokens, next, rest, -, hrest, rfl⟩ := lexLines_cons_eq_ok_iff.1 h
    rw [List.map_cons, ih hrest]

/-- Lines are rendered to their end with exactly the items that they have when they are all cut into
tokens first, and painted then. -/
theorem renderLines_eq_ok_iff :
    grammar.renderLines theme appearance lines state = (items, .ok ()) ↔
      ∃ lexed last groups, grammar.lexLines lines state = .ok (lexed, last) ∧
        lexed.mapM (theme.itemsOfLine appearance) = .ok groups ∧ items = groups.flatten := by
  induction lines generalizing state items with
  | nil =>
    refine ⟨fun h => ⟨[], state, [], rfl, rfl, by cases h; rfl⟩, ?_⟩
    rintro ⟨lexed, last, groups, hlex, hgroups, rfl⟩
    cases hlex
    cases hgroups
    rfl
  | cons line lines ih =>
    refine ⟨fun h => ?_, ?_⟩
    · rcases htokens : grammar.tokenize .unbounded line state with e | ⟨tokens, next⟩
      · rw [renderLines_of_tokenize_error htokens] at h
        cases h
      · rcases hpaint : theme.paint appearance line tokens with ⟨group, e | _⟩
        · rw [renderLines_of_paint_error htokens hpaint] at h
          cases h
        · rw [renderLines_of_paint_ok htokens hpaint, Prod.mk.injEq] at h
          obtain ⟨rfl, hok⟩ := h
          obtain ⟨rest, last, groups, hlex, hgroups, hitems⟩ := ih.1 (Prod.ext rfl hok)
          refine ⟨⟨line, tokens⟩ :: rest, last, group :: groups, ?_, ?_, ?_⟩
          · exact lexLines_cons_eq_ok_iff.2 ⟨tokens, next, rest, htokens, hlex, rfl⟩
          · exact mapM_cons_eq_ok_iff.2 ⟨group, groups, Theme.paint_eq_ok_iff.1 hpaint, hgroups, rfl⟩
          · exact congrArg (group ++ ·) hitems
    · rintro ⟨lexed, last, groups, hlex, hgroups, rfl⟩
      obtain ⟨tokens, next, rest, htokens, hrest, rfl⟩ := lexLines_cons_eq_ok_iff.1 hlex
      obtain ⟨group, others, hgroup, hothers, rfl⟩ := mapM_cons_eq_ok_iff.1 hgroups
      rw [renderLines_of_paint_ok htokens (Theme.paint_eq_ok_iff.2 hgroup),
        ih.2 ⟨rest, last, others, hrest, hothers, rfl⟩, List.flatten_cons]

end Grammar

namespace Pass

variable {sink : Sink κ} {lexing after : Lexing σ} {p q : Painter} {k k' : κ}

theorem run_of_none (h : lexing.next = (none, after)) : run sink lexing p k = ⟨.ok (), k, p, after⟩ := by
  rw [run]
  split <;> simp_all

theorem run_of_error {e : RenderError} (h : lexing.next = (some (.error e), after)) :
    run sink lexing p k = ⟨.error e, k, p, after⟩ := by
  rw [run]
  split <;> simp_all

theorem run_of_line_error {line : TokenLine} {e : ColorError} (h : lexing.next = (some (.ok line), after))
    (hline : Painter.line sink line.text line.tokens p k = (.error e, q, k')) :
    run sink lexing p k = ⟨.error (.color e), k', q, after⟩ := by
  rw [run]
  split <;> simp_all

theorem run_of_line_ok {line : TokenLine} (h : lexing.next = (some (.ok line), after))
    (hline : Painter.line sink line.text line.tokens p k = (.ok (), q, k')) :
    run sink lexing p k = run sink after q k' := by
  rw [run]
  split <;> simp_all

/-- **A pass is a rendering without a memory.** -/
theorem run_eq (sink : Sink κ) (lexing : Lexing σ) (k : κ) {theme : Theme} {appearance : Appearance}
    {asked : List ColorRef} (hlive : lexing.failed = false) (hp : p.After theme appearance asked) :
    (run sink lexing p k).result = (lexing.grammar.renderLines theme appearance lexing.rest lexing.state).2 ∧
    (run sink lexing p k).sink =
      sink.items k (lexing.grammar.renderLines theme appearance lexing.rest lexing.state).1 := by
  -- What the painter has been asked for grows from line to line, and so do the sink and the state.
  generalize hrest : lexing.rest = lines
  induction lines generalizing lexing p asked k with
  | nil =>
    rw [run_of_none (Lexing.next_of_nil hrest)]
    exact ⟨rfl, rfl⟩
  | cons line lines ih =>
    cases htokens : lexing.grammar.tokenize .unbounded line lexing.state with
    | error e =>
      obtain ⟨after, hnext, -⟩ := Lexing.next_of_error hlive hrest htokens
      rw [run_of_error hnext, Grammar.renderLines_of_tokenize_error htokens]
      exact ⟨rfl, rfl⟩
    | ok answer =>
      obtain ⟨tokens, state⟩ := answer
      obtain ⟨after, hnext, hgrammar, hlines, hstate, hlive', -⟩ := Lexing.next_of_ok hlive hrest htokens
      obtain ⟨q, hq, hafter⟩ := hp.line sink line tokens k
      rcases hpaint : theme.paint appearance line tokens with ⟨items, e | _⟩
      · rw [hpaint] at hq
        rw [run_of_line_error hnext hq, Grammar.renderLines_of_paint_error htokens hpaint]
        exact ⟨rfl, rfl⟩
      · rw [hpaint] at hq
        obtain ⟨hresult, hsink⟩ := ih after _ hlive' hafter hlines
        rw [run_of_line_ok hnext hq, Grammar.renderLines_of_paint_ok htokens hpaint, hresult, hsink, hgrammar, hstate]
        exact ⟨rfl, by rw [Sink.items, Sink.items, Sink.items, List.foldl_append]⟩

end Pass

/-- **A rendering is one without a memory**, by the pair that its names resolve to. -/
theorem Highlighter.render_result (h : Highlighter β σ) (code language theme : String) (appearance : Appearance) :
    (h.render code language theme appearance).result =
      match (h.resolve language theme).1 with
      | .error e => .error e
      | .ok entry =>
        match entry.grammar.renderLines entry.theme appearance (Text.Lines.split code) entry.grammar.start with
        | (_, .error e) => .error (.error e)
        | (items, .ok ()) => .ok { items, source := some entry.source } := by
  rw [render]
  rcases h.resolve language theme with ⟨_ | entry, h'⟩
  · rfl
  · have hpass := Pass.run_eq .collect (.start entry.grammar code h'.config.trace) #[] rfl
      (Painter.After.new entry.theme appearance)
    simp only
    generalize Pass.run .collect _ _ _ = pass at hpass ⊢
    obtain ⟨hresult, hsink⟩ := hpass
    have hitems := congrArg Array.toList hsink
    rw [Sink.toList_collect, List.nil_append, Lexing.start] at hitems
    rw [Lexing.start] at hresult
    rcases hlines : entry.grammar.renderLines entry.theme appearance (Text.Lines.split code) entry.grammar.start
      with ⟨items, e | _⟩
    · simp only [hlines] at hresult
      simp only [hresult]
    · simp only [hlines] at hresult hitems
      simp only [hresult, hitems]

/-- A rendering succeeds exactly if all lines can be cut into tokens first and painted then, each colour
decoded anew, and it has exactly the items of these lines. -/
theorem Highlighter.result_eq_ok_iff (h : Highlighter β σ) {code language theme : String} {appearance : Appearance}
    {doc : Document} :
    (h.render code language theme appearance).result = .ok doc ↔
      ∃ entry lexed last groups, (h.resolve language theme).1 = .ok entry ∧
        entry.grammar.lexLines (Text.Lines.split code) entry.grammar.start = .ok (lexed, last) ∧
        lexed.mapM (entry.theme.itemsOfLine appearance) = .ok groups ∧
        doc = { items := groups.flatten, source := some entry.source } := by
  rw [render_result]
  rcases (h.resolve language theme).1 with e | entry
  · simp
  · refine ⟨fun hdoc => ?_, ?_⟩
    · rcases hlines : entry.grammar.renderLines entry.theme appearance (Text.Lines.split code) entry.grammar.start
        with ⟨items, e | _⟩
      · simp [hlines] at hdoc
      · simp only [hlines, Except.ok.injEq] at hdoc
        obtain ⟨lexed, last, groups, hlex, hgroups, hitems⟩ := Grammar.renderLines_eq_ok_iff.1 hlines
        exact ⟨entry, lexed, last, groups, rfl, hlex, hgroups, by rw [← hdoc, hitems]⟩
    · rintro ⟨entry', lexed, last, groups, hentry, hlex, hgroups, rfl⟩
      cases hentry
      simp only [Grammar.renderLines_eq_ok_iff.2 ⟨lexed, last, groups, hlex, hgroups, rfl⟩]

section Items

variable {theme : Theme} {appearance : Appearance} {lexed : List TokenLine} {groups : List (List Item)}

theorem countP_isLineBreak_flatten (h : lexed.mapM (theme.itemsOfLine appearance) = .ok groups) :
    groups.flatten.countP Item.isLineBreak = lexed.length := by
  induction lexed generalizing groups with
  | nil =>
    cases h
    rfl
  | cons line lexed ih =>
    obtain ⟨group, rest, hgroup, hrest, rfl⟩ := mapM_cons_eq_ok_iff.1 h
    obtain ⟨spans, rfl, -, -⟩ := Theme.itemsOf_cases hgroup
    have hspans : (spans.map Item.span).countP Item.isLineBreak = 0 := by
      rw [List.countP_eq_zero]
      intro item hitem
      obtain ⟨span, -, rfl⟩ := List.mem_map.1 hitem
      simp [Item.isLineBreak]
    rw [List.flatten_cons, List.countP_append, List.countP_append, hspans, ih hrest, List.length_cons]
    simp [Item.isLineBreak, Nat.add_comm]

theorem getLast?_flatten_items (h : lexed.mapM (theme.itemsOfLine appearance) = .ok groups) (hne : lexed ≠ []) :
    groups.flatten.getLast? = some .lineBreak := by
  induction lexed generalizing groups with
  | nil => exact absurd rfl hne
  | cons line lexed ih =>
    obtain ⟨group, rest, hgroup, hrest, rfl⟩ := mapM_cons_eq_ok_iff.1 h
    obtain ⟨spans, rfl, -, -⟩ := Theme.itemsOf_cases hgroup
    rw [List.flatten_cons, List.getLast?_append]
    cases lexed with
    | nil =>
      cases hrest
      simp
    | cons next lexed => rw [ih hrest (by simp), Option.some_or]

/-- Every span of painted lines is the slice of a token of one of them. -/
theorem token_of_mem_flatten (h : lexed.mapM (theme.itemsOfLine appearance) = .ok groups) {span : Span}
    (hspan : Item.span span ∈ groups.flatten) :
    ∃ line ∈ lexed, ∃ token ∈ line.tokens, theme.spanOf appearance line.text token = .ok (some span) := by
  obtain ⟨group, hgroup, hitem⟩ := List.mem_flatten.1 hspan
  obtain ⟨line, hline, hitems⟩ := mem_of_mapM_eq_ok h hgroup
  obtain ⟨spans, rfl, hmem, -⟩ := Theme.itemsOf_cases hitems
  rw [List.mem_append, List.mem_map] at hitem
  rcases hitem with ⟨span', hspan', heq⟩ | hbreak
  · cases heq
    exact ⟨line, hline, hmem span hspan'⟩
  · simp at hbreak

end Items

theorem Document.mem_spans {doc : Document} {span : Span} : span ∈ doc.spans ↔ Item.span span ∈ doc.items := by
  rw [Document.spans, List.mem_filterMap]
  refine ⟨?_, fun h => ⟨_, h, rfl⟩⟩
  rintro ⟨_ | _, hitem, heq⟩
  · cases heq
    exact hitem
  · cases heq

/-- **A rendering equals its reference without a memory**, whatever the cache held before and whatever
tokens the grammar gives: its items are those of the lines of the text, one after the other, each cut from
the state that the line before left, each colour decoded anew. So there is a line break for each line, the
last item is one, and no span is empty or holds a line feed. -/
theorem Highlighter.render_eq_without_memory (h : Highlighter β σ) (code language theme : String)
    (appearance : Appearance) (doc : Document) :
    ((h.render code language theme appearance).result = .ok doc ↔
      ∃ entry lexed last groups, (h.resolve language theme).1 = .ok entry ∧
        entry.grammar.lexLines (Text.Lines.split code) entry.grammar.start = .ok (lexed, last) ∧
        lexed.mapM (entry.theme.itemsOfLine appearance) = .ok groups ∧
        doc = { items := groups.flatten, source := some entry.source }) ∧
    ((h.render code language theme appearance).result = .ok doc →
      doc.lineCount = code.toList.count '\n' + 1 ∧ doc.items.getLast? = some .lineBreak ∧
      ∀ span ∈ doc.spans, span.text ≠ "" ∧ '\n' ∉ span.text.toList) := by
  refine ⟨h.result_eq_ok_iff, fun hdoc => ?_⟩
  obtain ⟨entry, lexed, last, groups, -, hlex, hgroups, rfl⟩ := h.result_eq_ok_iff.1 hdoc
  have htexts := Grammar.map_text_of_lexLines hlex
  have hlength : lexed.length = code.toList.count '\n' + 1 := by
    rw [← Text.Lines.length_split, ← htexts, List.length_map]
  refine ⟨?_, ?_, fun span hspan => ?_⟩
  · rw [Document.lineCount, countP_isLineBreak_flatten hgroups, hlength]
  · refine getLast?_flatten_items hgroups fun hnil => ?_
    rw [hnil, List.length_nil] at hlength
    omega
  · obtain ⟨line, hline, token, -, hspanOf⟩ := token_of_mem_flatten hgroups (Document.mem_spans.1 hspan)
    have hchars := Theme.chars_of_spanOf hspanOf
    have hsplit : line.text ∈ Text.Lines.split code := htexts ▸ List.mem_map_of_mem hline
    refine ⟨Theme.text_ne_empty_of_spanOf hspanOf, fun hbreak => ?_⟩
    rw [← Option.elim_some (f := fun s : Span => s.text.toList), hchars] at hbreak
    exact Text.Lines.not_mem_of_mem_split hsplit (Text.Bytes.mem_of_mem_between hbreak)

end Highlight
