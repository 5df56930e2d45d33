/-
What one line leaves in a sink, whatever its painter remembers. A painter works
as a theme would in which the colours that it remembers stand for their
references (`Painter.recalled`), so each token has the span that the painter
would make of it first thing (`Painter.span_eq_recalled`).

`Painter.Leaves` gives the two ways a line can end: whole, or broken off before
the first token that has a colour which does not decode. Tokens that no
character of the line ends in play no part (`Painter.line_filter`), and
`Painter.line_leaves` puts all this together.
-/
import Highlight.Proofs.Painting
import Highlight.Proofs.Color
import Mathlib.Data.List.Forall2

namespace Highlight

/-- Whether some character of the line ends in the token. -/
def Token.isShown (line : String) (token : Token) : Bool := (Text.Bytes.clamp line token.start token.stop).isSome

namespace Painter

/-- The theme of a painter, with the colours that the painter remembers in place of the theme's own. -/
def recalled (p : Painter) : Theme where
  name := p.theme.name
  rulesFor := p.theme.rulesFor
  colorText ref :=
    match p.known.lookup ref with
    | some color => some color.toHex
    | none => p.theme.colorText ref

theorem colorOf_recalled (p : Painter) (ref : ColorRef) :
    p.recalled.colorOf ref =
      match p.known.lookup ref with
      | some color => .ok color
      | none => p.theme.colorOf ref := by
  simp only [Theme.colorOf, recalled]
  cases p.known.lookup ref with
  | some color => exact Color.ofHex_toHex color
  | none => rfl

theorem color_fst (p : Painter) (ref : ColorRef) : (p.color ref).1 = p.recalled.colorOf ref := by
  rw [colorOf_recalled, color]
  cases p.known.lookup ref with
  | some color => rfl
  | none => cases p.theme.colorOf ref <;> rfl

/-- Asked for a colour, a painter decodes as before. -/
theorem colorOf_recalled_color (p : Painter) (ref other : ColorRef) :
    (p.color ref).2.recalled.colorOf other = p.recalled.colorOf other := by
  rw [color]
  cases hknown : p.known.lookup ref with
  | some color => rfl
  | none =>
    cases hcolor : p.theme.colorOf ref with
    | error e => rfl
    | ok color =>
      rw [colorOf_recalled, colorOf_recalled, List.lookup_cons]
      by_cases heq : other = ref
      · subst heq
        simp [hknown, hcolor]
      · simp [beq_eq_false_iff_ne.2 heq]

theorem color_snd (p : Painter) (ref : ColorRef) :
    (p.color ref).2.theme = p.theme ∧ (p.color ref).2.appearance = p.appearance := by
  rw [color]
  cases p.known.lookup ref with
  | some color => exact ⟨rfl, rfl⟩
  | none => cases p.theme.colorOf ref <;> exact ⟨rfl, rfl⟩

/-- Whatever a painter remembers, it goes on to style and decode as it does now. -/
theorem invariant (p : Painter) :
    Invariant p.recalled p.appearance fun _ q =>
      q.theme = p.theme ∧ q.appearance = p.appearance ∧ q.recalled.colorOf = p.recalled.colorOf where
  styleOf := fun ⟨htheme, _, _⟩ => by rw [htheme]; rfl
  appearance := fun ⟨_, happearance, _⟩ => happearance
  color := by
    rintro _ q ⟨htheme, happearance, hcolorOf⟩ ref
    obtain ⟨htheme', happearance'⟩ := q.color_snd ref
    refine ⟨(q.color ref).2, ?_, htheme'.trans htheme, happearance'.trans happearance, ?_⟩
    · rw [← hcolorOf, ← color_fst]
    · funext other
      rw [colorOf_recalled_color, hcolorOf]

theorem span_eq_recalled (p : Painter) (line : String) (token : Token) :
    (p.span line token).1 = p.recalled.spanOf p.appearance line token := by
  obtain ⟨q, hq, -⟩ := @Invariant.span _ _ _ p [] p.invariant ⟨rfl, rfl, rfl⟩ line token
  rw [hq]

theorem exists_line_eq (p : Painter) (sink : Sink κ) (text : String) (tokens : List Token) (k : κ) :
    ∃ q : Painter, line sink text tokens p k =
      ((p.recalled.paint p.appearance text tokens).2, q,
        sink.items k (p.recalled.paint p.appearance text tokens).1) := by
  obtain ⟨q, hq, -⟩ := @Invariant.line _ _ _ p [] _ p.invariant ⟨rfl, rfl, rfl⟩ sink text tokens k
  exact ⟨q, hq⟩

theorem span_of_not_isShown {p : Painter} {line : String} {token : Token} (h : token.isShown line = false) :
    p.span line token = (.ok none, p) := by
  rw [Token.isShown, Option.isSome_eq_false_iff, Option.isNone_iff_eq_none] at h
  rw [span, h]

/-- **Tokens that no character of the line ends in play no part**, wherever they stand and whatever their scopes. -/
theorem line_filter (sink : Sink κ) (text : String) (tokens : List Token) (p : Painter) (k : κ) :
    line sink text (tokens.filter (·.isShown text)) p k = line sink text tokens p k := by
  induction tokens generalizing p k with
  | nil => rfl
  | cons token tokens ih =>
    cases hshown : token.isShown text with
    | false =>
      rw [List.filter_cons_of_neg (by simp [hshown]), ih, line, span_of_not_isShown hshown]
    | true =>
      rw [List.filter_cons_of_pos hshown, line, line]
      rcases p.span text token with ⟨_ | _ | span, q⟩
      · rfl
      · exact ih q k
      · exact ih q (sink.span k span)

/-- The error of the first colour of a token that the painter cannot have, its foreground before its background. -/
def error? (p : Painter) (token : Token) : Option ColorError :=
  (p.theme.styleOf token.scopes).colors.findSome? fun ref =>
    match (p.color ref).1 with
    | .ok _ => none
    | .error e => some e

/-- How a line of shown tokens ends, and what it leaves. -/
inductive Leaves (p : Painter) (text : String) (tokens : List Token) : Except ColorError Unit → List Item → Prop
  /-- All colours decode: the spans of the tokens, in their order, and one line break. -/
  | whole {spans : List Span} (hgood : ∀ token ∈ tokens, p.error? token = none)
    (hspans : List.Forall₂ (fun token span => (p.span text token).1 = .ok (some span)) tokens spans) :
    Leaves p text tokens (.ok ()) (spans.map .span ++ [.lineBreak])
  /-- A colour of this token is the first that does not: the spans of the tokens before it, and no line break. -/
  | broken {before after : List Token} {bad : Token} {spans : List Span} {e : ColorError}
    (htokens : tokens = before ++ bad :: after) (hgood : ∀ token ∈ before, p.error? token = none)
    (hbad : p.error? bad = some e)
    (hspans : List.Forall₂ (fun token span => (p.span text token).1 = .ok (some span)) before spans) :
    Leaves p text tokens (.error e) (spans.map .span)

theorem error?_eq (p : Painter) (token : Token) :
    p.error? token = (p.recalled.styleOf token.scopes).colors.findSome? p.recalled.error? := by
  simp only [error?, color_fst]
  rfl

theorem colorsOf_of_isShown {theme : Theme} {line : String} {token : Token} (h : token.isShown line = true) :
    theme.colorsOf line token = (theme.styleOf token.scopes).colors := by
  obtain ⟨range, hclamp⟩ := Option.isSome_iff_exists.1 h
  rw [Theme.colorsOf, hclamp]

/-- A token is shown if and only if it has a span, unless one of its colours fails. -/
theorem isShown_iff (theme : Theme) (appearance : Appearance) {line : String} {token : Token} :
    token.isShown line = true ↔ theme.spanOf appearance line token ≠ .ok none := by
  rw [Token.isShown, Option.isSome_iff_ne_none, ne_eq, ne_eq, not_iff_not]
  refine ⟨fun hclamp => by rw [Theme.spanOf, hclamp], fun hspan => ?_⟩
  rcases Theme.spanOf_cases hspan with ⟨-, hclamp⟩ | ⟨_, _, _, -, -, -, hsome⟩
  · exact hclamp
  · cases hsome

theorem leaves_recalled (p : Painter) (text : String) (tokens : List Token) :
    p.Leaves text (tokens.filter (·.isShown text)) (p.recalled.paint p.appearance text tokens).2
      (p.recalled.paint p.appearance text tokens).1 := by
  induction tokens with
  | nil => exact .whole (by simp) .nil
  | cons token tokens ih =>
    rw [Theme.paint]
    cases hspan : p.recalled.spanOf p.appearance text token with
    | error e =>
      have hshown : token.isShown text = true := (isShown_iff p.recalled p.appearance).2 (by rw [hspan]; simp)
      have hbad : p.error? token = some e := by
        rw [error?_eq, ← colorsOf_of_isShown hshown]
        exact Theme.spanOf_eq_error_iff.1 hspan
      rw [List.filter_cons_of_pos hshown]
      exact .broken (List.nil_append _).symm (by simp) hbad .nil
    | ok span? =>
      cases span? with
      | none =>
        have hshown : token.isShown text = false := by
          rw [← Bool.not_eq_true, isShown_iff p.recalled p.appearance, hspan]
          simp
        rw [List.filter_cons_of_neg (by simp [hshown])]
        exact ih
      | some span =>
        have hshown : token.isShown text = true := (isShown_iff p.recalled p.appearance).2 (by rw [hspan]; simp)
        have hgood : p.error? token = none := by
          rw [error?_eq, ← colorsOf_of_isShown hshown]
          exact Theme.findSome?_error?_of_ok hspan
        have hhead : (p.span text token).1 = .ok (some span) := by rw [span_eq_recalled, hspan]
        rw [List.filter_cons_of_pos hshown]
        generalize p.recalled.paint p.appearance text tokens = painted at ih ⊢
        obtain ⟨items, result⟩ := painted
        cases ih with
        | whole hrest hspans => exact .whole (List.forall_mem_cons.2 ⟨hgood, hrest⟩) (.cons hhead hspans)
        | broken htokens hrest hbad hspans =>
          rw [htokens]
          exact .broken List.cons_append.symm (List.forall_mem_cons.2 ⟨hgood, hrest⟩) hbad (.cons hhead hspans)

/-- **What a line leaves in a sink.** It only adds to what is there: the spans of the tokens that are shown, in their
order, and one line break; or, if a colour of some token does not decode, the spans of the tokens before that one and
nothing more. Other tokens may be left out or put in anywhere, and the result, the sink and the lookups stay the same.
An empty line leaves its line break, whatever its tokens. -/
theorem line_leaves (p : Painter) (text : String) (tokens : List Token) :
    (∃ result items, p.Leaves text (tokens.filter (·.isShown text)) result items ∧
      (∀ (κ : Type) (sink : Sink κ) (k : κ),
        (line sink text tokens p k).1 = result ∧ (line sink text tokens p k).2.2 = sink.items k items) ∧
      ∀ kept : Array Item, (line .collect text tokens p kept).2.2 = kept ++ items.toArray) ∧
    (∀ others : List Token, others.filter (·.isShown text) = tokens.filter (·.isShown text) →
      ∀ (κ : Type) (sink : Sink κ) (k : κ), line sink text others p k = line sink text tokens p k) ∧
    ∀ (κ : Type) (sink : Sink κ) (k : κ), line sink "" tokens p k = (.ok (), p, sink.lineBreak k) := by
  have hline (κ : Type) (sink : Sink κ) (k : κ) :
      (line sink text tokens p k).1 = (p.recalled.paint p.appearance text tokens).2 ∧
      (line sink text tokens p k).2.2 = sink.items k (p.recalled.paint p.appearance text tokens).1 := by
    obtain ⟨q, hq⟩ := p.exists_line_eq sink text tokens k
    rw [hq]
    exact ⟨rfl, rfl⟩
  refine ⟨⟨_, _, p.leaves_recalled text tokens, hline, fun kept => ?_⟩, fun others hothers κ sink k => ?_,
    fun κ sink k => ?_⟩
  · rw [(hline _ .collect kept).2]
    exact Array.toList_inj.1 (by rw [Sink.toList_collect, Array.toList_append])
  · rw [← line_filter, hothers, line_filter]
  · have hnone : tokens.filter (·.isShown "") = [] := by
      rw [List.filter_eq_nil_iff]
      intro token _
      rw [Token.isShown, Text.Bytes.clamp_eq_none_iff.2 rfl]
      simp
    rw [← line_filter, hnone]
    rfl

/-- Tokens past the end, reversed, or within a character whose end they miss ask for nothing, though their colour would
fail: the line breaks off at the `é`, whose token ends in it. -/
theorem line_leaves_among_strays :
    let theme : Theme :=
      { name := "t"
        rulesFor := fun scopes => if "bad" ∈ scopes then [{ foreground := some ⟨1⟩ }] else [{ foreground := some ⟨0⟩ }]
        colorText := fun ref => if ref = ⟨0⟩ then some "#0a0b0c" else some "red" }
    let p : Painter := { theme, appearance := .dark, known := [(⟨2⟩, .white)], lookups := [⟨2⟩] }
    let strays : List Token := [⟨7, 9, ["bad"]⟩, ⟨0, 1, []⟩, ⟨1, 2, ["bad"]⟩, ⟨2, 0, ["bad"]⟩, ⟨1, 3, ["bad"]⟩, ⟨3, 4, []⟩]
    let tokens : List Token := [⟨0, 1, []⟩, ⟨1, 3, ["bad"]⟩, ⟨3, 4, []⟩]
    strays.filter (·.isShown "aéb") = tokens.filter (·.isShown "aéb") ∧
      Painter.line .collect "aéb" strays p #[.lineBreak] = Painter.line .collect "aéb" tokens p #[.lineBreak] ∧
      (Painter.line .collect "aéb" tokens p #[.lineBreak]).2.2 = #[.lineBreak, .span ⟨"a", ⟨10, 11, 12⟩, none, {}⟩] := by
  intro theme p strays tokens
  have hshown : strays.filter (·.isShown "aéb") = tokens.filter (·.isShown "aéb") := by decide
  exact ⟨hshown, (line_leaves p "aéb" tokens).2.1 strays hshown _ .collect #[.lineBreak], by decide +kernel⟩

end Painter

end Highlight
