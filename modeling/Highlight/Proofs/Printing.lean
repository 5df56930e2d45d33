/-
Printing for a terminal. A renderer over a catalogue has only grammars of line
parsers, whose tokens leave nothing of a line out and show nothing twice. So the
items of a rendering show the text with a line feed after it
(`Highlighter.Reachable.shown_of_render`), and that is what is left of the printed
text when its escape sequences are deleted (`Highlighter.strip_print`), whatever
the parsers report and the stylesheets say.
-/
import Highlight.Catalog
import Highlight.Document.Print
import Highlight.Proofs.Ansi.Text
import Highlight.Proofs.LineParser
import Highlight.Proofs.Reachable

namespace Highlight

/-- Lines whose tokens tile them are painted with what shows their texts, each with a line feed after it. -/
theorem flatMap_shown_flatten {theme : Theme} {appearance : Appearance} {lexed : List TokenLine}
    {painted : List (List Item)} (h : lexed.mapM (theme.itemsOfLine appearance) = .ok painted)
    (htiles : ∀ line ∈ lexed, Tiles (Text.Bytes.size line.text.toList) 0 line.tokens) :
    painted.flatten.flatMap Item.shown = lexed.flatMap fun line => line.text.toList ++ ['\n'] := by
  induction lexed generalizing painted with
  | nil =>
    cases h
    rfl
  | cons line lexed ih =>
    obtain ⟨items, rest, hitems, hrest, rfl⟩ := mapM_cons_eq_ok_iff.1 h
    obtain ⟨hline, hlines⟩ := List.forall_mem_cons.1 htiles
    obtain ⟨spans, rfl, -, hchars⟩ := Theme.itemsOf_cases hitems
    have hspans : (spans.map Item.span).flatMap Item.shown = spans.flatMap (·.text.toList) :=
      List.flatMap_map ..
    rw [flatMap_between_of_tiles hline, Text.Bytes.wholeChars_zero, List.drop_zero] at hchars
    rw [List.flatten_cons, List.flatMap_append, List.flatMap_append, hspans, hchars, ih hrest hlines,
      List.flatMap_cons]
    rfl

namespace Backend

variable {backend : Backend β σ} {fallback language : String} {state : β} {grammar : Grammar σ} {source : Source}

/-- What serves a language is what the backend has under some name. -/
theorem exists_loadGrammar_of_grammarFor (h : backend.grammarFor fallback language state = .ok (grammar, source)) :
    ∃ id, (backend.loadGrammar id state).1 = .ok (some grammar) := by
  unfold grammarFor at h
  split at h
  case h_1 own hown =>
    cases h
    exact ⟨language, hown⟩
  case h_2 => cases h
  all_goals
    split at h
    · cases h
    · split at h
      · rename_i other hother
        cases h
        exact ⟨fallback, hother⟩
      · cases h
      · cases h

theorem pairFor_eq_ok_iff {key : Cache.Key} {loaded : Theme} :
    backend.pairFor fallback key state = .ok (loaded, grammar, source) ↔
      (backend.loadTheme key.theme state).1 = .ok loaded ∧
        backend.grammarFor fallback key.language state = .ok (grammar, source) := by
  unfold pairFor
  rcases (backend.loadTheme key.theme state).1 with e | theme
  · simp
  · rcases backend.grammarFor fallback key.language state with e | ⟨own, from_⟩ <;> simp [Except.map]

end Backend

namespace Catalog

variable (c : Catalog π)

theorem stable_backend : c.backend.Stable where
  theme _ _ _ := by simp only [backend]
  grammar _ _ _ := rfl

/-- A catalogue has grammars of line parsers only. -/
theorem exists_parser_of_loadGrammar {id : String} {grammar : Grammar (π × ScopeStack)}
    (h : (c.backend.loadGrammar id ()).1 = .ok (some grammar)) :
    ∃ (parser : LineParser π) (scope : String), grammar = parser.grammar scope := by
  have hgrammar : c.grammar? id = some grammar := Except.ok.inj h
  obtain ⟨language, -, hlanguage⟩ := Option.map_eq_some_iff.1 hgrammar
  exact ⟨language.parser, language.scope.name, hlanguage.symm⟩

end Catalog

namespace Highlighter

variable {c : Catalog π} {config : Config} {h : Highlighter Unit (π × ScopeStack)}

/-- What a renderer over a catalogue resolves has the grammar of a line parser. -/
theorem Reachable.exists_parser (hreach : Reachable c.backend config h) {language theme : String}
    {entry : Cache.Entry (π × ScopeStack)} (hentry : (h.resolve language theme).1 = .ok entry) :
    ∃ (parser : LineParser π) (scope : String), entry.grammar = parser.grammar scope := by
  have hpair := hreach.resolve_pair c.stable_backend language theme ()
  rw [hentry] at hpair
  obtain ⟨-, hgrammar⟩ := Backend.pairFor_eq_ok_iff.1 hpair.symm
  obtain ⟨id, hload⟩ := Backend.exists_loadGrammar_of_grammarFor hgrammar
  exact c.exists_parser_of_loadGrammar hload

/-- **A document over a catalogue shows the text**, and a line feed after it. -/
theorem Reachable.shown_of_render (hreach : Reachable c.backend config h) {code language theme : String}
    {appearance : Appearance} {doc : Document} (hdoc : (h.render code language theme appearance).result = .ok doc) :
    doc.items.flatMap Item.shown = code.toList ++ ['\n'] := by
  obtain ⟨entry, lexed, last, painted, hentry, hlex, hpainted, rfl⟩ := h.result_eq_ok_iff.1 hdoc
  obtain ⟨parser, scope, hgrammar⟩ := hreach.exists_parser hentry
  have htiles : entry.grammar.TilesLines (Text.Lines.split code) entry.grammar.start := by
    rw [hgrammar]
    exact parser.tilesLines_grammar scope _ _
  have hlines := Grammar.map_text_of_lexLines hlex
  rw [flatMap_shown_flatten hpainted (Grammar.tiles_of_lexLines htiles hlex), ← Text.Lines.flatMap_split, ← hlines,
    List.flatMap_map]

/-- **Terminal text strips back to the input.** If a renderer over a catalogue prints a text that has no escape
character, and its escape sequences are deleted from what is printed, then the text and a line feed are left. -/
theorem strip_print (hreach : Reachable c.backend config h) {code language shown : String}
    (hcode : Ansi.escape ∉ code.toList) (hprint : (h.print .terminal code language).1 = .ok shown) :
    Ansi.strip shown = code ++ "\n" := by
  rw [print] at hprint
  cases hdoc : (h.renderDefault code language).result with
  | error e =>
    rw [hdoc] at hprint
    cases hprint
  | ok doc =>
    rw [hdoc] at hprint
    cases hprint
    have hshown := hreach.shown_of_render hdoc
    have hfree : Ansi.EscapeFree doc.items := by
      intro s hs hescape
      have hmem : Ansi.escape ∈ doc.items.flatMap Item.shown := List.mem_flatMap.2 ⟨_, hs, hescape⟩
      rw [hshown, List.mem_append] at hmem
      exact hmem.elim hcode (by decide)
    show Ansi.strip (Ansi.text doc.items) = code ++ "\n"
    rw [Ansi.strip_text hfree, hshown]
    simp

end Highlighter

/-- Reports changes inside a character, beyond the line and backwards. -/
def LineParser.straying : LineParser Unit where
  start := ()
  parse _ _ := .ok ([(1, .push ⟨["stray"]⟩), (9, .noop), (2, .pop 1)], ())

/-- A catalogue of one such language and one stylesheet, which colours what it pushes. -/
def Catalog.straying : Catalog Unit where
  languages := [{ name := "Straying", scope := ⟨["source", "straying"]⟩, extensions := ["st"], parser := .straying }]
  stylesheets := [("plain", { items :=
    [{ selector := ⟨[⟨[⟨["stray"]⟩], []⟩]⟩, foreground := some ⟨⟨1, 2, 3⟩, 255⟩ }] })]

/-- Even where the parser strays: the character that it cuts in two is shown once. -/
theorem Highlighter.strip_print_straying :
    ∃ shown, ((new Catalog.straying.backend { theme := "plain" } ()).print .terminal "é\nm" "st").1 = .ok shown ∧
      Ansi.strip shown = "é\nm\n" := by
  have hprint : ((new Catalog.straying.backend { theme := "plain" } ()).print .terminal "é\nm" "st").1 =
      .ok "\x1b[38;2;1;2;3mé\x1b[0m\n\x1b[38;2;255;255;255mm\x1b[0m\n" := by
    decide +kernel
  exact ⟨_, hprint, strip_print (.new ()) (by decide) hprint⟩

end Highlight
