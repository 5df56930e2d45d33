/-
One text under two appearances. Which tokens are shown and how a rendering fails
do not depend on the appearance (`Highlighter.result_eq_error_congr`). The
documents that come of it agree item by item, except in the foreground of those
tokens for which no rule sets one (`Alike`), and so a text looks the same
wherever the appearance is not light (`Highlighter.render_under_appearances`).

An item stands for a `Place` of the text, a token that is shown or the end of a
line. `Theme.Shows` relates the two under one appearance.
-/
import Highlight.Proofs.FirstFailure
import Highlight.Proofs.Painting.Line

namespace Highlight

/-- What an item of a document stands for. -/
inductive Place where
  | token (line : String) (token : Token)
  | lineEnd

/-- The places of a line: the tokens that some character of the line ends in, and its end. -/
def TokenLine.places (line : TokenLine) : List Place :=
  (line.tokens.filter (·.isShown line.text)).map (.token line.text) ++ [.lineEnd]

/-- The item of a place under some appearance. -/
inductive Theme.Shows (theme : Theme) (appearance : Appearance) : Place → Item → Prop
  | token {line : String} {token : Token} {span : Span} (hspan : theme.spanOf appearance line token = .ok (some span)) :
    Shows theme appearance (.token line token) (.span span)
  | lineEnd : Shows theme appearance .lineEnd .lineBreak

/-- The items of a place under two appearances: the same, unless no rule sets a foreground for the token. Then they are
the same but for the foreground, which is black on a light surface and white on any other. -/
inductive Alike (theme : Theme) (a b : Appearance) : Place → Item → Item → Prop
  | lineEnd : Alike theme a b .lineEnd .lineBreak .lineBreak
  | colored {line : String} {token : Token} {range : Text.Bytes.Range} {span : Span}
    (hrange : Text.Bytes.clamp line token.start token.stop = some range)
    (htext : span.text = Text.Bytes.slice line range)
    (hsets : ∃ rule ∈ theme.rulesFor token.scopes, rule.foreground ≠ none) :
    Alike theme a b (.token line token) (.span span) (.span span)
  | uncolored {line : String} {token : Token} {range : Text.Bytes.Range} {span : Span}
    (hrange : Text.Bytes.clamp line token.start token.stop = some range)
    (htext : span.text = Text.Bytes.slice line range)
    (hsets : ∀ rule ∈ theme.rulesFor token.scopes, rule.foreground = none) :
    Alike theme a b (.token line token)
      (.span { span with foreground := if a = .light then .black else .white })
      (.span { span with foreground := if b = .light then .black else .white })

theorem Appearance.foreground_eq (appearance : Appearance) :
    appearance.foreground = if appearance = .light then .black else .white := by
  cases appearance <;> rfl

namespace Theme

variable {theme : Theme} {a b : Appearance}

theorem foreground_styleOf_eq_none_iff {scopes : List String} :
    (theme.styleOf scopes).foreground = none ↔ ∀ rule ∈ theme.rulesFor scopes, rule.foreground = none :=
  List.findSome?_eq_none_iff

/-- Two items of one place agree but for a foreground that no rule sets. -/
theorem Shows.alike {place : Place} {item item' : Item} (h : theme.Shows a place item)
    (h' : theme.Shows b place item') : Alike theme a b place item item' := by
  cases h with
  | lineEnd =>
    cases h'
    exact .lineEnd
  | @token line token span hspan =>
    obtain ⟨hspan'⟩ := h'
    rcases spanOf_cases hspan with ⟨hnone, -⟩ | ⟨range, foreground, background, hclamp, hfg, hbg, hsome⟩
    · cases hnone
    rcases spanOf_cases hspan' with ⟨hnone, -⟩ | ⟨range', foreground', background', hclamp', hfg', hbg', hsome'⟩
    · cases hnone
    cases hclamp.symm.trans hclamp'
    cases hbg.symm.trans hbg'
    rw [Option.some.inj hsome, Option.some.inj hsome']
    rw [foregroundOf] at hfg hfg'
    cases hsets : (theme.styleOf token.scopes).foreground with
    | some ref =>
      rw [hsets] at hfg hfg'
      cases hfg.symm.trans hfg'
      refine .colored hclamp rfl ?_
      obtain ⟨rule, hrule, hforeground⟩ := List.exists_of_findSome?_eq_some hsets
      exact ⟨rule, hrule, by simp [hforeground]⟩
    | none =>
      rw [hsets] at hfg hfg'
      rw [← Except.ok.inj hfg, ← Except.ok.inj hfg', a.foreground_eq, b.foreground_eq]
      exact @Alike.uncolored theme a b line token range ⟨Text.Bytes.slice line range, .black, background, _⟩ hclamp rfl
        (foreground_styleOf_eq_none_iff.1 hsets)

/-- The items of a line are those of its places. -/
theorem shows_of_itemsOfLine {line : TokenLine} {items : List Item} (h : theme.itemsOfLine a line = .ok items) :
    List.Forall₂ (theme.Shows a) line.places items := by
  obtain ⟨text, tokens⟩ := line
  rw [itemsOfLine] at h
  dsimp only at h
  induction tokens generalizing items with
  | nil =>
    cases h
    exact .cons .lineEnd .nil
  | cons token tokens ih =>
    rw [itemsOf_cons] at h
    rw [TokenLine.places, List.filter_cons]
    rcases hspan : theme.spanOf a text token with e | _ | span
    · simp [hspan] at h
    · have hshown : token.isShown text ≠ true := fun hshown => (Painter.isShown_iff theme a).1 hshown hspan
      rw [hspan] at h
      rw [if_neg hshown]
      exact ih h
    · have hshown : token.isShown text = true := (Painter.isShown_iff theme a).2 (by simp [hspan])
      rw [hspan] at h
      rw [if_pos hshown]
      cases hrest : theme.itemsOf a text tokens with
      | error e => simp [hrest, Except.map] at h
      | ok rest =>
        simp only [hrest, Except.map, Except.ok.injEq] at h
        rw [← h]
        exact .cons (.token hspan) (ih hrest)

/-- The items of painted lines are those of their places. -/
theorem shows_of_mapM {lexed : List TokenLine} {groups : List (List Item)}
    (h : lexed.mapM (theme.itemsOfLine a) = .ok groups) :
    List.Forall₂ (theme.Shows a) (lexed.flatMap TokenLine.places) groups.flatten := by
  induction lexed generalizing groups with
  | nil =>
    cases h
    exact .nil
  | cons line lexed ih =>
    obtain ⟨items, rest, hitems, hrest, rfl⟩ := mapM_cons_eq_ok_iff.1 h
    rw [List.flatMap_cons, List.flatten_cons]
    exact List.rel_append (shows_of_itemsOfLine hitems) (ih hrest)

/-- Items of the same places, side by side. -/
theorem alike_zip {places : List Place} {items items' : List Item} (h : List.Forall₂ (theme.Shows a) places items)
    (h' : List.Forall₂ (theme.Shows b) places items') :
    List.Forall₂ (fun place pair => Alike theme a b place pair.1 pair.2) places (items.zip items') := by
  induction h generalizing items' with
  | nil => exact .nil
  | cons hitem _ ih =>
    obtain _ | ⟨hitem', hitems'⟩ := h'
    exact .cons (hitem.alike hitem') (ih hitems')

/-- An appearance counts by its foreground alone. -/
theorem itemsOfLine_congr (theme : Theme) (h : a.foreground = b.foreground) :
    theme.itemsOfLine a = theme.itemsOfLine b := by
  have hspan : ∀ line, theme.spanOf a line = theme.spanOf b line := by
    intro line
    funext token
    simp only [spanOf, foregroundOf, h]
  funext line
  rw [itemsOfLine, itemsOf, hspan]
  rfl

end Theme

namespace Highlighter

section

variable (h : Highlighter β σ) (code language theme : String) (a b : Appearance)

/-- How a rendering fails does not depend on the appearance. -/
theorem result_eq_error_congr {e : Failure} :
    (h.render code language theme a).result = .error e ↔ (h.render code language theme b).result = .error e := by
  cases hresolve : (h.resolve language theme).1 with
  | error e' => rw [render_result, render_result, hresolve]
  | ok entry => rw [result_eq_error_iff_of_ok hresolve, result_eq_error_iff_of_ok hresolve]

theorem exists_result_eq_ok {doc : Document} (hdoc : (h.render code language theme a).result = .ok doc) :
    ∃ doc', (h.render code language theme b).result = .ok doc' := by
  cases hresult : (h.render code language theme b).result with
  | error e =>
    rw [h.result_eq_error_congr code language theme b a, hdoc] at hresult
    cases hresult
  | ok doc' => exact ⟨doc', rfl⟩

theorem result_congr (hab : a.foreground = b.foreground) :
    (h.render code language theme a).result = (h.render code language theme b).result := by
  cases hresult : (h.render code language theme b).result with
  | error e => exact (h.result_eq_error_congr code language theme a b).2 hresult
  | ok doc =>
    obtain ⟨entry, lexed, last, groups, hentry, hlex, hgroups, hdoc⟩ := h.result_eq_ok_iff.1 hresult
    refine h.result_eq_ok_iff.2 ⟨entry, lexed, last, groups, hentry, hlex, ?_, hdoc⟩
    rw [entry.theme.itemsOfLine_congr hab]
    exact hgroups

/-- A renderer that has the pair of a language and a theme renders with it from then on. -/
theorem render_again {entry : Cache.Entry σ} (hentry : (h.resolve language theme).1 = .ok entry) :
    ((h.render code language theme a).highlighter.render code language theme b).result =
      (h.render code language theme b).result := by
  have hcached : (h.render code language theme a).highlighter.cache.get? ⟨language, theme⟩ = some entry := by
    rw [(h.render_highlighter code language theme a).2.2]
    exact Cache.get?_of_resolve hentry
  have hresolve : ((h.render code language theme a).highlighter.resolve language theme).1 = .ok entry := by
    rw [resolve, Cache.resolve_of_get?_eq_some hcached]
  rw [render_result, render_result, hresolve, hentry]

end

/-- **What the appearance changes in a rendering.** Under any two appearances the text is lexed and the colours are
looked up alike, and the cache ends the same. Both renderings fail with the same error, or both succeed. Then their
documents have the same source and as many items, one for each place of the text, and at each place the items agree,
except in the foreground of a token for which no rule sets one: this is black under the light appearance, and white
under both others. So the dark and the default appearance give the same document. It makes no difference if the second
rendering is done by the renderer that did the first, once that has the pair. -/
theorem render_under_appearances (h : Highlighter β σ) (code language theme : String) (a b : Appearance) :
    let first := h.render code language theme a
    let second := h.render code language theme b
    (∀ e, first.result = .error e ↔ second.result = .error e) ∧
    (∀ doc, first.result = .ok doc → ∃ doc', second.result = .ok doc' ∧
      doc'.source = doc.source ∧ doc'.items.length = doc.items.length ∧
      ∃ entry lexed last, (h.resolve language theme).1 = .ok entry ∧
        entry.grammar.lexLines (Text.Lines.split code) entry.grammar.start = .ok (lexed, last) ∧
        List.Forall₂ (fun place pair => Alike entry.theme a b place pair.1 pair.2) (lexed.flatMap TokenLine.places)
          (doc.items.zip doc'.items)) ∧
    (first.calls = second.calls ∧ first.lookups = second.lookups) ∧
    first.highlighter.cache = second.highlighter.cache ∧
    (∀ entry, (h.resolve language theme).1 = .ok entry →
      (first.highlighter.render code language theme b).result = second.result) ∧
    (h.render code language theme .dark).result = (h.render code language theme .default).result := by
  intro first second
  refine ⟨fun e => h.result_eq_error_congr code language theme a b, fun doc hdoc => ?_,
    render_trace_congr rfl code a b, ?_, fun entry hentry => h.render_again code language theme a b hentry,
    h.result_congr code language theme .dark .default rfl⟩
  · obtain ⟨doc', hdoc'⟩ := h.exists_result_eq_ok code language theme a b hdoc
    obtain ⟨entry, lexed, last, groups, hentry, hlex, hgroups, rfl⟩ := h.result_eq_ok_iff.1 hdoc
    obtain ⟨entry', lexed', last', groups', hentry', hlex', hgroups', rfl⟩ := h.result_eq_ok_iff.1 hdoc'
    cases hentry.symm.trans hentry'
    cases hlex.symm.trans hlex'
    have hshows := Theme.shows_of_mapM hgroups
    have hshows' := Theme.shows_of_mapM hgroups'
    exact ⟨_, hdoc', rfl, hshows'.length_eq.symm.trans hshows.length_eq, entry, lexed, last, hentry, hlex,
      Theme.alike_zip hshows hshows'⟩
  · rw [(h.render_highlighter code language theme a).2.2, (h.render_highlighter code language theme b).2.2]

end Highlighter

end Highlight
