/-
A rendered document keeps its text. If the tokens of each line follow one
another from its start to its end (`Tiles`), then the spans between two line
breaks spell one line, and the lines spell the text
(`Highlighter.render_reconstructs`). Tokens may meet inside a character: it
goes to the token that has its last byte.
-/
import Highlight.Proofs.Cache.Fresh
import Highlight.Proofs.Rendering

namespace Highlight

/-- Tokens that follow one another from the byte `start` to the end of a line of `size` bytes, or beyond it. -/
def Tiles (size : Nat) : Nat → List Token → Prop
  | start, [] => size ≤ start
  | start, token :: tokens => token.start = start ∧ token.start ≤ token.stop ∧ Tiles size token.stop tokens

instance decidableTiles (size : Nat) : ∀ start tokens, Decidable (Tiles size start tokens)
  | start, [] => inferInstanceAs (Decidable (size ≤ start))
  | start, token :: tokens =>
    have := decidableTiles size token.stop tokens
    inferInstanceAs (Decidable (token.start = start ∧ token.start ≤ token.stop ∧ Tiles size token.stop tokens))

/-- Each of the lines, cut from the state that the line before left, is tiled by its tokens. -/
def Grammar.TilesLines (grammar : Grammar σ) : List String → σ → Prop
  | [], _ => True
  | line :: lines, state => ∀ tokens next, grammar.tokenize .unbounded line state = .ok (tokens, next) →
    Tiles (Text.Bytes.size line.toList) 0 tokens ∧ grammar.TilesLines lines next

/-- The texts of the spans among some items, put together. -/
def Item.text (items : List Item) : String := String.join ((items.filterMap Item.span?).map Span.text)

theorem flatMap_between_of_tiles {cs : List Char} {start : Nat} {tokens : List Token}
    (h : Tiles (Text.Bytes.size cs) start tokens) :
    (tokens.flatMap fun token => Text.Bytes.between cs token.start token.stop) =
      cs.drop (Text.Bytes.wholeChars cs start) := by
  induction tokens generalizing start with
  | nil => rw [Text.Bytes.wholeChars_of_size_le h, List.drop_length, List.flatMap_nil]
  | cons token tokens ih =>
    obtain ⟨rfl, hle, hrest⟩ := h
    rw [List.flatMap_cons, ih hrest, Text.Bytes.between_append_drop cs hle]

theorem Grammar.tiles_of_lexLines {grammar : Grammar σ} {lines : List String} {state last : σ}
    {lexed : List TokenLine} (htiles : grammar.TilesLines lines state)
    (h : grammar.lexLines lines state = .ok (lexed, last)) :
    ∀ line ∈ lexed, Tiles (Text.Bytes.size line.text.toList) 0 line.tokens := by
  induction lines generalizing state lexed with
  | nil =>
    cases h
    simp
  | cons line lines ih =>
    obtain ⟨tokens, next, rest, htokens, hrest, rfl⟩ := lexLines_cons_eq_ok_iff.1 h
    obtain ⟨hline, hlines⟩ := htiles tokens next htokens
    intro other hother
    rcases List.mem_cons.1 hother with rfl | hother
    · exact hline
    · exact ih hlines hrest other hother

theorem Item.text_map_span (spans : List Span) :
    Item.text (spans.map .span) = String.ofList (spans.flatMap (·.text.toList)) := by
  have hspans : (spans.map Item.span).filterMap Item.span? = spans := by
    rw [List.filterMap_map]
    exact List.filterMap_some
  rw [← String.toList_inj, Item.text, hspans, String.toList_join, String.toList_ofList, List.flatMap_map]

/-- Painted lines, cut at their line breaks, spell the lines that they were painted from. -/
theorem splitOnP_flatten_items {theme : Theme} {appearance : Appearance} {lexed : List TokenLine}
    {painted : List (List Item)} (h : lexed.mapM (theme.itemsOfLine appearance) = .ok painted)
    (htiles : ∀ line ∈ lexed, Tiles (Text.Bytes.size line.text.toList) 0 line.tokens) :
    ∃ groups : List (List Item), painted.flatten.splitOnP Item.isLineBreak = groups ++ [[]] ∧
      groups.map Item.text = lexed.map (·.text) := by
  induction lexed generalizing painted with
  | nil =>
    cases h
    exact ⟨[], rfl, rfl⟩
  | cons line lexed ih =>
    obtain ⟨items, rest, hitems, hrest, rfl⟩ := mapM_cons_eq_ok_iff.1 h
    obtain ⟨spans, rfl, -, hchars⟩ := Theme.itemsOf_cases hitems
    obtain ⟨groups, hgroups, htexts⟩ := ih hrest fun other hother => htiles other (List.mem_cons_of_mem _ hother)
    refine ⟨spans.map .span :: groups, ?_, ?_⟩
    · have hspans : ∀ item ∈ spans.map Item.span, item.isLineBreak = false := by
        intro item hitem
        obtain ⟨span, -, rfl⟩ := List.mem_map.1 hitem
        rfl
      rw [List.flatten_cons, List.append_assoc, List.singleton_append,
        List.splitOnP_append_cons_of_forall_mem hspans _ rfl, hgroups, List.cons_append]
    · have hline := flatMap_between_of_tiles (htiles line List.mem_cons_self)
      rw [Text.Bytes.wholeChars_zero, List.drop_zero] at hline
      rw [List.map_cons, List.map_cons, htexts, Item.text_map_span, hchars, hline, String.ofList_toList]

/-- **A document keeps its text.** If the tokens of each line tile it, then the items of a rendering, cut at
their line breaks, spell the lines of the text, with nothing after the last break, and the lines spell the text. -/
theorem Highlighter.render_reconstructs {h : Highlighter β σ} {code language theme : String}
    {appearance : Appearance} {entry : Cache.Entry σ} {doc : Document}
    (hentry : (h.resolve language theme).1 = .ok entry)
    (htiles : entry.grammar.TilesLines (Text.Lines.split code) entry.grammar.start)
    (hdoc : (h.render code language theme appearance).result = .ok doc) :
    ∃ groups : List (List Item), doc.items.splitOnP Item.isLineBreak = groups ++ [[]] ∧
      groups.map Item.text = Text.Lines.split code ∧ Text.Lines.join (groups.map Item.text) = code := by
  obtain ⟨entry', lexed, last, painted, hentry', hlex, hpainted, rfl⟩ := h.result_eq_ok_iff.1 hdoc
  obtain rfl : entry' = entry := by
    rw [hentry] at hentry'
    exact (Except.ok.inj hentry').symm
  obtain ⟨groups, hgroups, htexts⟩ := splitOnP_flatten_items hpainted (Grammar.tiles_of_lexLines htiles hlex)
  rw [Grammar.map_text_of_lexLines hlex] at htexts
  exact ⟨groups, hgroups, htexts, by rw [htexts, Text.Lines.join_split]⟩

/-- A theme without rules. -/
def Theme.plain : Theme where
  name := "plain"
  rulesFor _ := []
  colorText _ := none

/-- Makes a token of each byte of a line, and one of bytes that the line has not. -/
def Grammar.bytewise : Grammar Unit where
  scope := "text.bytes"
  start := ()
  tokenize _ line _ :=
    let size := Text.Bytes.size line.toList
    .ok ((List.range size).map (fun i => ⟨i, i + 1, []⟩) ++ [⟨size, size + 4, []⟩], ())

/-- Even where every byte is a token: the two bytes of `é` make one span. -/
theorem Highlighter.render_reconstructs_bytewise :
    ∃ doc, ((new (.single .plain .bytewise) {} ()).render "é\nb" "bytes" "plain" .light).result = .ok doc ∧
      ∃ groups : List (List Item), doc.items.splitOnP Item.isLineBreak = groups ++ [[]] ∧
        groups.map Item.text = Text.Lines.split "é\nb" ∧ Text.Lines.join (groups.map Item.text) = "é\nb" := by
  have hdoc : ((new (.single .plain .bytewise) {} ()).render "é\nb" "bytes" "plain" .light).result =
      .ok ⟨[.span ⟨"é", .black, none, {}⟩, .lineBreak, .span ⟨"b", .black, none, {}⟩, .lineBreak], some .requested⟩ := by
    rw [render_result]
    rfl
  have hlines : Text.Lines.split "é\nb" = ["é", "b"] := rfl
  have htiles : Grammar.bytewise.TilesLines (Text.Lines.split "é\nb") Grammar.bytewise.start := by
    rw [hlines]
    intro tokens next h
    cases h
    refine ⟨by decide, fun tokens next h => ?_⟩
    cases h
    exact ⟨by decide, trivial⟩
  exact ⟨_, hdoc, render_reconstructs rfl htiles hdoc⟩

end Highlight
