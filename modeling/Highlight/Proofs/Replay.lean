/-
Replaying what was buffered. A pass into a buffer and a pass into another sink do
the same step by step: they give the grammar and ask of the theme the same, and
what the one has buffered, given to the sink, is what the other has given to it
(`Painter.line_replayed`, `Pass.run_replayed`). So a rendered document may be
replayed into any sink in place of a pass over its text
(`Highlighter.replay_eq_run`).
-/
import Highlight.Proofs.Printing

namespace Highlight

namespace Sink

variable (sink : Sink κ) (k : κ)

theorem items_append (before after : List Item) :
    sink.items k (before ++ after) = sink.items (sink.items k before) after :=
  List.foldl_append

/-- Buffering one more item comes to giving it to the sink. -/
theorem items_collect (buffer : Array Item) (item : Item) :
    sink.items k (collect.item buffer item).toList = sink.item (sink.items k buffer.toList) item := by
  have hbuffer : (collect.item buffer item).toList = buffer.toList ++ [item] := toList_collect buffer [item]
  rw [hbuffer, items_append]
  rfl

/-- A buffer, replayed into an empty buffer, is the same buffer. -/
theorem collect_items (items : List Item) : collect.items #[] items = items.toArray := by
  rw [← Array.toList_inj, toList_collect]
  rfl

end Sink

/-- **A line is painted into every sink alike.** The painter and the outcome do not depend on the sink, and what a
buffer took in is what the sink takes in. -/
theorem Painter.line_replayed (sink : Sink κ) (k : κ) (text : String) (tokens : List Token) (p : Painter)
    (buffer : Array Item) :
    let buffered := line .collect text tokens p buffer
    line sink text tokens p (sink.items k buffer.toList) =
      (buffered.1, buffered.2.1, sink.items k buffered.2.2.toList) := by
  induction tokens generalizing p buffer with
  | nil =>
    simp only [line]
    exact congrArg _ (congrArg _ (sink.items_collect k buffer .lineBreak).symm)
  | cons token tokens ih =>
    simp only [line]
    rcases p.span text token with ⟨_ | _ | span, q⟩
    · rfl
    · exact ih q buffer
    · have hspan : sink.span (sink.items k buffer.toList) span = _ := (sink.items_collect k buffer (.span span)).symm
      dsimp only
      rw [hspan]
      exact ih q _

/-- **A pass goes into every sink alike**, whether it comes to its end or breaks off. -/
theorem Pass.run_replayed (sink : Sink κ) (k : κ) (lexing : Lexing σ) (p : Painter) (buffer : Array Item) :
    let buffered := run .collect lexing p buffer
    run sink lexing p (sink.items k buffer.toList) =
      ⟨buffered.result, sink.items k buffered.sink.toList, buffered.painter, buffered.lexing⟩ := by
  fun_induction run .collect lexing p buffer with
  | case1 lexing p buffer after hnext => rw [run_of_none hnext]
  | case2 lexing p buffer e after hnext => rw [run_of_error hnext]
  | case3 lexing p buffer line after hnext e q buffer' hline =>
    have hsink := Painter.line_replayed sink k line.text line.tokens p buffer
    rw [hline] at hsink
    rw [run_of_line_error hnext hsink]
  | case4 lexing p buffer line after hnext q buffer' hline ih =>
    have hsink := Painter.line_replayed sink k line.text line.tokens p buffer
    rw [hline] at hsink
    rw [run_of_line_ok hnext hsink, ih]

namespace Highlighter

/-- **A rendered document stands for a pass over its text.** Replayed into any sink, it leaves the sink as a pass of the
grammar and the theme over the lines leaves it, which also ends well, gives the grammar the same and asks for the same
colours. Replayed into an empty buffer it gives its items. To replay another document after it comes to replaying the
items of both. -/
theorem replay_eq_run {h : Highlighter β σ} {code language theme : String} {appearance : Appearance} {doc : Document}
    (hdoc : (h.render code language theme appearance).result = .ok doc) :
    (∃ entry, (h.resolve language theme).1 = .ok entry ∧ ∀ (κ : Type) (sink : Sink κ) (k : κ),
      let streamed := Pass.run sink (.start entry.grammar code h.config.trace) { theme := entry.theme, appearance } k
      streamed.result = .ok () ∧ doc.replay sink k = streamed.sink ∧
      streamed.lexing.calls = (h.render code language theme appearance).calls ∧
      streamed.painter.lookups = (h.render code language theme appearance).lookups) ∧
    doc.replay .collect #[] = doc.items.toArray ∧
    ∀ (κ : Type) (sink : Sink κ) (k : κ) (other : Document),
      other.replay sink (doc.replay sink k) = { doc with items := doc.items ++ other.items }.replay sink k := by
  refine ⟨?_, Sink.collect_items doc.items, fun κ sink k other => (sink.items_append k doc.items other.items).symm⟩
  have hconfig : (h.resolve language theme).2.config = h.config := rfl
  unfold render at hdoc ⊢
  generalize h.resolve language theme = answer at hdoc hconfig ⊢
  obtain ⟨e | entry, after⟩ := answer
  · cases hdoc
  · refine ⟨entry, rfl, fun κ sink k => ?_⟩
    dsimp only at hdoc hconfig ⊢
    rw [hconfig] at hdoc ⊢
    have hrun := Pass.run_replayed sink k (.start entry.grammar code h.config.trace)
      { theme := entry.theme, appearance } #[]
    generalize Pass.run .collect _ _ _ = buffered at hdoc hrun ⊢
    have hstreamed : Pass.run sink (.start entry.grammar code h.config.trace)
        { theme := entry.theme, appearance } k = _ := hrun
    rw [hstreamed]
    cases hresult : buffered.result with
    | error e =>
      rw [hresult] at hdoc
      cases hdoc
    | ok =>
      rw [hresult] at hdoc
      cases hdoc
      exact ⟨rfl, rfl, rfl, rfl⟩

/-- Takes in each span with the number of its line. -/
def numbering : Sink (Nat × List (Nat × String)) where
  span k s := (k.1, k.2 ++ [(k.1, s.text)])
  lineBreak k := (k.1 + 1, k.2)

/-- Even where the sink is in use already, and the parser strays: the pieces of two lines get the numbers that a pass
gives them, and the document goes on where another has ended. -/
theorem replay_eq_run_straying :
    let h := new Catalog.straying.backend { theme := "plain" } ()
    let doc : Document :=
      { items := [.span ⟨"é", ⟨1, 2, 3⟩, none, {}⟩, .lineBreak, .span ⟨"m", .white, none, {}⟩, .lineBreak]
        source := some .requested }
    (h.render "é\nm" "st" "plain" .dark).result = .ok doc ∧
    (∃ entry, (h.resolve "st" "plain").1 = .ok entry ∧
      (Pass.run numbering (.start entry.grammar "é\nm" false) { theme := entry.theme, appearance := .dark }
        (7, [])).sink = (9, [(7, "é"), (8, "m")])) ∧
    doc.replay numbering (doc.replay numbering (7, [])) = (11, [(7, "é"), (8, "m"), (9, "é"), (10, "m")]) := by
  intro h doc
  have hdoc : (h.render "é\nm" "st" "plain" .dark).result = .ok doc := by decide +kernel
  obtain ⟨⟨entry, hentry, hstreamed⟩, -, htwice⟩ := replay_eq_run hdoc
  obtain ⟨-, hsink, -⟩ := hstreamed _ numbering (7, [])
  refine ⟨hdoc, ⟨entry, hentry, hsink.symm.trans ?_⟩, (htwice _ numbering (7, []) doc).trans ?_⟩
  · decide
  · decide

end Highlighter

end Highlight
