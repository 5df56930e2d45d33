/-
Painting without a memory. `Theme.spanOf` decodes each colour of a token anew;
`Theme.paint` gives what a line of tokens puts into a sink, and how it ends.

A painter paints like that as long as it decodes like that, whatever else is
known of it (`Painter.Invariant.span`, `Painter.Invariant.line`). What is known
of one that has been asked for some references is that it remembers exactly
those among them that decode (`Painter.After`), so that it looks a good colour
up once. Every painter in use is one of these (`Painter.Reachable`).
-/
import Highlight.Painter
import Highlight.Proofs.Except
import Highlight.Proofs.Lists
import Highlight.Proofs.Text.Bytes

namespace Highlight

/-- The colours that a style sets, the foreground first. -/
def Style.colors (style : Style) : List ColorRef := style.foreground.toList ++ style.background.toList

namespace Theme

/-- The foreground of a style, or that of the appearance if it sets none. -/
def foregroundOf (theme : Theme) (appearance : Appearance) (style : Style) : Except ColorError Color :=
  match style.foreground with
  | some ref => theme.colorOf ref
  | none => .ok appearance.foreground

/-- The span of a token, each colour decoded anew; none if no character of the line ends in the token. -/
def spanOf (theme : Theme) (appearance : Appearance) (line : String) (token : Token) :
    Except ColorError (Option Span) :=
  match Text.Bytes.clamp line token.start token.stop with
  | none => .ok none
  | some range => do
    let style := theme.styleOf token.scopes
    let foreground ← theme.foregroundOf appearance style
    let background ← style.background.mapM theme.colorOf
    return some ⟨Text.Bytes.slice line range, foreground, background, .ofBits style.font⟩

/-- What the tokens of a line put into a sink, and how that ends. -/
def paint (theme : Theme) (appearance : Appearance) (line : String) : List Token → List Item × Except ColorError Unit
  | [] => ([.lineBreak], .ok ())
  | token :: tokens =>
    match theme.spanOf appearance line token with
    | .error e => ([], .error e)
    | .ok none => theme.paint appearance line tokens
    | .ok (some span) =>
      (.span span :: (theme.paint appearance line tokens).1, (theme.paint appearance line tokens).2)

/-- The items of a line: the spans of its tokens, in their order, and then a line break. -/
def itemsOf (theme : Theme) (appearance : Appearance) (line : String) (tokens : List Token) :
    Except ColorError (List Item) := do
  let spans ← tokens.mapM (theme.spanOf appearance line)
  return (spans.filterMap id).map .span ++ [.lineBreak]

/-- The colours that a token is shown in, the foreground first: those that its rules set first. None if
no character of the line ends in the token. -/
def colorsOf (theme : Theme) (line : String) (token : Token) : List ColorRef :=
  match Text.Bytes.clamp line token.start token.stop with
  | none => []
  | some _ => (theme.styleOf token.scopes).colors

/-- Why a reference has no good colour behind it, if it has none. -/
def error? (theme : Theme) (ref : ColorRef) : Option ColorError :=
  match theme.colorOf ref with
  | .ok _ => none
  | .error e => some e

def fails (theme : Theme) (ref : ColorRef) : Bool := (theme.error? ref).isSome

/-- The references that are looked up when these are asked for in turn: one that decodes only the first
time, one that fails every time. -/
def lookupsFor (theme : Theme) : List ColorRef → List ColorRef
  | [] => []
  | ref :: refs =>
    ref :: if theme.fails ref then theme.lookupsFor refs else (theme.lookupsFor refs).filter (· ≠ ref)

theorem lookupsFor_append_singleton (theme : Theme) (asked : List ColorRef) (ref : ColorRef) :
    theme.lookupsFor (asked ++ [ref]) =
      theme.lookupsFor asked ++ if ref ∈ asked ∧ theme.fails ref = false then [] else [ref] := by
  induction asked with
  | nil => simp [lookupsFor]
  | cons first asked ih =>
    rw [List.cons_append, lookupsFor, ih, lookupsFor]
    by_cases hfails : theme.fails first = true
    · by_cases heq : ref = first
      · subst heq; simp [hfails]
      · simp [hfails, heq]
    · by_cases heq : ref = first
      · subst heq
        have hok : theme.fails ref = false := by simpa using hfails
        simp only [hok, and_true, List.mem_cons, true_or, if_true, Bool.false_eq_true, if_false, List.filter_append]
        split <;> simp
      · simp only [hfails, List.filter_append, List.mem_cons, heq, false_or, List.cons_append]
        split <;> simp [heq]

/-- Asked for references up to the first that fails, a theme is asked for each once. -/
theorem lookupsFor_throughFirst (theme : Theme) (refs : List ColorRef) :
    theme.lookupsFor (throughFirst theme.fails refs) = (throughFirst theme.fails refs).eraseDups := by
  induction refs using List.reverseRecOn with
  | nil => rfl
  | append_singleton refs ref ih =>
    cases hany : refs.any theme.fails with
    | true => rw [throughFirst_append_of_any hany, ih]
    | false =>
      rw [throughFirst_of_not_any hany] at ih
      have hlast : throughFirst theme.fails [ref] = [ref] := by simp [throughFirst]
      have hseen : ref ∈ refs → theme.fails ref = false := by
        intro hmem
        rw [List.any_eq_false] at hany
        simpa using hany ref hmem
      rw [throughFirst_append_of_not_any hany, hlast, lookupsFor_append_singleton, ih, eraseDups_append_singleton]
      congr 1
      by_cases hmem : ref ∈ refs
      · simp [hmem, hseen hmem]
      · simp [hmem]

theorem throughFirst_colors_of_error {theme : Theme} {appearance : Appearance} {style : Style} {e : ColorError}
    (h : theme.foregroundOf appearance style = .error e) :
    throughFirst theme.fails style.colors = style.foreground.toList := by
  rw [foregroundOf] at h
  cases hfg : style.foreground with
  | none => simp [hfg] at h
  | some ref =>
    simp only [hfg] at h
    simp [Style.colors, hfg, throughFirst, fails, error?, h]

theorem throughFirst_colors_of_ok {theme : Theme} {appearance : Appearance} {style : Style} {color : Color}
    (h : theme.foregroundOf appearance style = .ok color) : throughFirst theme.fails style.colors = style.colors := by
  have hbg : throughFirst theme.fails style.background.toList = style.background.toList := by
    cases style.background <;> simp [throughFirst]
  rw [foregroundOf] at h
  cases hfg : style.foreground with
  | none => rw [Style.colors, hfg, Option.toList_none, List.nil_append, hbg]
  | some ref =>
    simp only [hfg] at h
    rw [Style.colors, hfg, Option.toList_some,
      throughFirst_append_of_not_any (by simp [fails, error?, h]), hbg]

theorem foregroundOf_eq_error_iff {theme : Theme} {appearance : Appearance} {style : Style} {e : ColorError} :
    theme.foregroundOf appearance style = .error e ↔ style.foreground.toList.findSome? theme.error? = some e := by
  rw [foregroundOf]
  cases style.foreground with
  | none => simp
  | some ref => cases hcolor : theme.colorOf ref <;> simp [error?, hcolor]

theorem mapM_colorOf_eq_error_iff {theme : Theme} {ref : Option ColorRef} {e : ColorError} :
    ref.mapM theme.colorOf = .error e ↔ ref.toList.findSome? theme.error? = some e := by
  cases ref with
  | none => simp [pure, Except.pure]
  | some ref => cases hcolor : theme.colorOf ref <;> simp [error?, hcolor, Functor.map, Except.map]

/-- A span fails with the first of the errors of its colours. -/
theorem spanOf_eq_error_iff {theme : Theme} {appearance : Appearance} {line : String} {token : Token}
    {e : ColorError} :
    theme.spanOf appearance line token = .error e ↔ (theme.colorsOf line token).findSome? theme.error? = some e := by
  rw [spanOf, colorsOf]
  cases Text.Bytes.clamp line token.start token.stop with
  | none => simp
  | some range =>
    simp only
    generalize theme.styleOf token.scopes = style
    rw [Style.colors, List.findSome?_append]
    cases hfg : theme.foregroundOf appearance style with
    | error e' => rw [foregroundOf_eq_error_iff.1 hfg, bind_error]; simp
    | ok color =>
      have hnone : style.foreground.toList.findSome? theme.error? = none := by
        rw [Option.eq_none_iff_forall_ne_some]
        intro e' he'
        rw [foregroundOf_eq_error_iff.2 he'] at hfg
        cases hfg
      rw [hnone, Option.none_or, bind_ok, ← mapM_colorOf_eq_error_iff]
      cases style.background.mapM theme.colorOf <;> simp [pure, Except.pure]

theorem findSome?_error?_of_ok {theme : Theme} {appearance : Appearance} {line : String} {token : Token}
    {span : Option Span} (h : theme.spanOf appearance line token = .ok span) :
    (theme.colorsOf line token).findSome? theme.error? = none := by
  rw [Option.eq_none_iff_forall_ne_some]
  intro e he
  rw [spanOf_eq_error_iff.2 he] at h
  cases h

theorem any_fails (theme : Theme) (refs : List ColorRef) :
    refs.any theme.fails = (refs.findSome? theme.error?).isSome :=
  List.isSome_findSome?.symm

theorem paint_snd (theme : Theme) (appearance : Appearance) (line : String) (tokens : List Token) :
    (theme.paint appearance line tokens).2 =
      match (tokens.flatMap (theme.colorsOf line)).findSome? theme.error? with
      | some e => .error e
      | none => .ok () := by
  induction tokens with
  | nil => rfl
  | cons token tokens ih =>
    rw [paint, List.flatMap_cons, List.findSome?_append]
    cases hspan : theme.spanOf appearance line token with
    | error e => rw [spanOf_eq_error_iff.1 hspan]; rfl
    | ok span =>
      rw [findSome?_error?_of_ok hspan, Option.none_or, ← ih]
      cases span <;> rfl

/-- What a span that can be made is made of. -/
theorem spanOf_cases {theme : Theme} {appearance : Appearance} {line : String} {token : Token}
    {span : Option Span} (h : theme.spanOf appearance line token = .ok span) :
    (span = none ∧ Text.Bytes.clamp line token.start token.stop = none) ∨
    ∃ range foreground background,
      Text.Bytes.clamp line token.start token.stop = some range ∧
      theme.foregroundOf appearance (theme.styleOf token.scopes) = .ok foreground ∧
      (theme.styleOf token.scopes).background.mapM theme.colorOf = .ok background ∧
      span = some ⟨Text.Bytes.slice line range, foreground, background, .ofBits (theme.styleOf token.scopes).font⟩ := by
  rw [spanOf] at h
  cases hclamp : Text.Bytes.clamp line token.start token.stop with
  | none =>
    simp only [hclamp, Except.ok.injEq] at h
    exact .inl ⟨h.symm, rfl⟩
  | some range =>
    simp only [hclamp] at h
    cases hfg : theme.foregroundOf appearance (theme.styleOf token.scopes) with
    | error e =>
      simp [hfg] at h
    | ok foreground =>
      cases hbg : (theme.styleOf token.scopes).background.mapM theme.colorOf with
      | error e =>
        simp [hfg, hbg] at h
      | ok background =>
        refine .inr ⟨range, foreground, background, rfl, rfl, rfl, ?_⟩
        simp only [hfg, hbg, bind_ok, pure, Except.pure, Except.ok.injEq] at h
        exact h.symm

/-- The characters of the span of a token are those whose last byte is in the token. -/
theorem chars_of_spanOf {theme : Theme} {appearance : Appearance} {line : String} {token : Token}
    {span : Option Span} (h : theme.spanOf appearance line token = .ok span) :
    span.elim [] (·.text.toList) = Text.Bytes.between line.toList token.start token.stop := by
  rcases spanOf_cases h with ⟨rfl, hclamp⟩ | ⟨range, _, _, hclamp, -, -, rfl⟩
  · rw [Text.Bytes.clamp_eq_none_iff.1 hclamp]
    rfl
  · rw [Option.elim_some, Text.Bytes.slice_of_clamp hclamp, String.toList_ofList]

theorem text_ne_empty_of_spanOf {theme : Theme} {appearance : Appearance} {line : String} {token : Token}
    {span : Span} (h : theme.spanOf appearance line token = .ok (some span)) : span.text ≠ "" := by
  rcases spanOf_cases h with ⟨hnone, -⟩ | ⟨range, _, _, hclamp, -, -, hsome⟩
  · cases hnone
  · cases hsome
    exact Text.Bytes.slice_ne_empty hclamp

theorem itemsOf_cons (theme : Theme) (appearance : Appearance) (line : String) (token : Token) (tokens : List Token) :
    theme.itemsOf appearance line (token :: tokens) =
      match theme.spanOf appearance line token with
      | .error e => .error e
      | .ok none => theme.itemsOf appearance line tokens
      | .ok (some span) => (theme.itemsOf appearance line tokens).map (.span span :: ·) := by
  rw [itemsOf, List.mapM_cons, itemsOf]
  rcases theme.spanOf appearance line token with _ | _ | span
  · rfl
  · cases tokens.mapM (theme.spanOf appearance line) <;> rfl
  · cases tokens.mapM (theme.spanOf appearance line) <;> rfl

/-- What the items of a line are made of. -/
theorem itemsOf_cases {theme : Theme} {appearance : Appearance} {line : String} {tokens : List Token}
    {items : List Item} (h : theme.itemsOf appearance line tokens = .ok items) :
    ∃ spans : List Span, items = spans.map .span ++ [.lineBreak] ∧
      (∀ span ∈ spans, ∃ token ∈ tokens, theme.spanOf appearance line token = .ok (some span)) ∧
      spans.flatMap (·.text.toList) =
        tokens.flatMap fun token => Text.Bytes.between line.toList token.start token.stop := by
  induction tokens generalizing items with
  | nil =>
    cases h
    exact ⟨[], rfl, by simp, rfl⟩
  | cons token tokens ih =>
    rw [itemsOf_cons] at h
    cases hspan : theme.spanOf appearance line token with
    | error e => simp [hspan] at h
    | ok span? =>
      have hchars := chars_of_spanOf hspan
      cases span? with
      | none =>
        simp only [hspan] at h
        obtain ⟨spans, hitems, hmem, htext⟩ := ih h
        refine ⟨spans, hitems, fun s hs => ?_, ?_⟩
        · obtain ⟨t, ht, hspanOf⟩ := hmem s hs
          exact ⟨t, List.mem_cons_of_mem _ ht, hspanOf⟩
        · rw [List.flatMap_cons, ← hchars, htext]
          rfl
      | some span =>
        simp only [hspan] at h
        cases hrest : theme.itemsOf appearance line tokens with
        | error e => simp [hrest, Except.map] at h
        | ok rest =>
          obtain ⟨spans, hitems, hmem, htext⟩ := ih hrest
          simp only [hrest, Except.map, Except.ok.injEq] at h
          refine ⟨span :: spans, by rw [← h, hitems]; rfl, fun s hs => ?_, ?_⟩
          · rcases List.mem_cons.1 hs with rfl | hs
            · exact ⟨token, List.mem_cons_self, hspan⟩
            · obtain ⟨t, ht, hspanOf⟩ := hmem s hs
              exact ⟨t, List.mem_cons_of_mem _ ht, hspanOf⟩
          · rw [List.flatMap_cons, List.flatMap_cons, ← hchars, htext]
            rfl

/-- A line is painted to its end with exactly the items that it has. -/
theorem paint_eq_ok_iff {theme : Theme} {appearance : Appearance} {line : String} {tokens : List Token}
    {items : List Item} :
    theme.paint appearance line tokens = (items, .ok ()) ↔ theme.itemsOf appearance line tokens = .ok items := by
  induction tokens generalizing items with
  | nil => simp [paint, itemsOf, pure, Except.pure]
  | cons token tokens ih =>
    rw [paint, itemsOf_cons]
    rcases theme.spanOf appearance line token with _ | _ | span
    · simp
    · exact ih
    · refine ⟨fun h => ?_, fun h => ?_⟩
      · rw [Prod.mk.injEq] at h
        obtain ⟨rfl, hok⟩ := h
        rw [ih.1 (Prod.ext rfl hok)]
        rfl
      · cases hrest : theme.itemsOf appearance line tokens with
        | error e => simp [hrest, Except.map] at h
        | ok rest =>
          simp only [hrest, Except.map, Except.ok.injEq] at h
          rw [ih.2 hrest, ← h]

end Theme

namespace Painter

variable {theme : Theme} {appearance : Appearance}

/-- A property of painters, given what they were asked for, under which they style and decode as a theme does, and
which holds on after each colour that they are asked for. -/
structure Invariant (theme : Theme) (appearance : Appearance) (holds : List ColorRef → Painter → Prop) : Prop where
  styleOf {asked : List ColorRef} {p : Painter} : holds asked p → p.theme.styleOf = theme.styleOf
  appearance {asked : List ColorRef} {p : Painter} : holds asked p → p.appearance = appearance
  color {asked : List ColorRef} {p : Painter} : holds asked p → ∀ ref,
    ∃ q : Painter, p.color ref = (theme.colorOf ref, q) ∧ holds (asked ++ [ref]) q

namespace Invariant

variable {holds : List ColorRef → Painter → Prop} {p : Painter} {asked : List ColorRef}

theorem foreground (inv : Invariant theme appearance holds) (h : holds asked p) (style : Style) :
    ∃ q : Painter, p.foreground style = (theme.foregroundOf appearance style, q) ∧
      holds (asked ++ style.foreground.toList) q := by
  rw [Painter.foreground, Theme.foregroundOf]
  cases style.foreground with
  | some ref => exact inv.color h ref
  | none => exact ⟨p, by rw [inv.appearance h], by simpa using h⟩

theorem background (inv : Invariant theme appearance holds) (h : holds asked p) (style : Style) :
    ∃ q : Painter, p.background style = (style.background.mapM theme.colorOf, q) ∧
      holds (asked ++ style.background.toList) q := by
  rw [Painter.background]
  cases style.background with
  | none => exact ⟨p, rfl, by simpa using h⟩
  | some ref =>
    obtain ⟨q, hq, hafter⟩ := inv.color h ref
    refine ⟨q, ?_, hafter⟩
    rw [Option.mapM_some]
    simp only [hq]
    cases theme.colorOf ref <;> rfl

/-- A painter makes the span of a token whose colours are decoded anew. It is asked for the foreground,
and for the background if the foreground did not fail. -/
theorem span (inv : Invariant theme appearance holds) (h : holds asked p) (line : String) (token : Token) :
    ∃ q : Painter, p.span line token = (theme.spanOf appearance line token, q) ∧
      holds (asked ++ throughFirst theme.fails (theme.colorsOf line token)) q := by
  rw [Painter.span, Theme.spanOf, Theme.colorsOf]
  cases Text.Bytes.clamp line token.start token.stop with
  | none => exact ⟨p, rfl, by simpa [throughFirst] using h⟩
  | some range =>
    simp only [inv.styleOf h]
    generalize theme.styleOf token.scopes = style
    obtain ⟨q, hq, hafter⟩ := inv.foreground h style
    simp only [hq]
    cases hfg : theme.foregroundOf appearance style with
    | error e =>
      exact ⟨q, rfl, by rw [Theme.throughFirst_colors_of_error hfg]; exact hafter⟩
    | ok foreground =>
      obtain ⟨r, hr, hafter'⟩ := inv.background hafter style
      refine ⟨r, ?_, ?_⟩
      · simp only [hr]
        cases style.background.mapM theme.colorOf <;> rfl
      · rw [Theme.throughFirst_colors_of_ok hfg, Style.colors, ← List.append_assoc]
        exact hafter'

/-- What a painter puts into a sink, and how it ends, is what it would be without a memory. It is asked
for the colours of the tokens up to the first that fails. -/
theorem line (inv : Invariant theme appearance holds) (h : holds asked p) (sink : Sink κ) (text : String)
    (tokens : List Token) (k : κ) :
    ∃ q : Painter,
      Painter.line sink text tokens p k =
        ((theme.paint appearance text tokens).2, q, sink.items k (theme.paint appearance text tokens).1) ∧
      holds (asked ++ throughFirst theme.fails (tokens.flatMap (theme.colorsOf text))) q := by
  induction tokens generalizing p asked k with
  | nil => exact ⟨p, rfl, by simpa [throughFirst] using h⟩
  | cons token tokens ih =>
    obtain ⟨q, hq, hafter⟩ := inv.span h text token
    rw [Painter.line, Theme.paint, List.flatMap_cons]
    simp only [hq]
    cases hspan : theme.spanOf appearance text token with
    | error e =>
      have hany : (theme.colorsOf text token).any theme.fails = true := by
        rw [Theme.any_fails, Theme.spanOf_eq_error_iff.1 hspan]
        rfl
      exact ⟨q, rfl, by rw [throughFirst_append_of_any hany]; exact hafter⟩
    | ok span =>
      have hany : (theme.colorsOf text token).any theme.fails = false := by
        rw [Theme.any_fails, Theme.findSome?_error?_of_ok hspan]
        rfl
      rw [throughFirst_of_not_any hany] at hafter
      rw [throughFirst_append_of_not_any hany, ← List.append_assoc]
      cases span with
      | none => exact ih hafter k
      | some span => exact ih hafter (sink.span k span)

end Invariant

end Painter

/-- A painter that has been asked for these references since it was new. -/
structure Painter.After (p : Painter) (theme : Theme) (appearance : Appearance) (asked : List ColorRef) : Prop where
  theme_eq : p.theme = theme
  appearance_eq : p.appearance = appearance
  lookup_known (ref : ColorRef) : p.known.lookup ref = if ref ∈ asked then (theme.colorOf ref).toOption else none
  lookups_eq : p.lookups = theme.lookupsFor asked

namespace Painter.After

variable {p : Painter} {theme : Theme} {appearance : Appearance} {asked : List ColorRef}

theorem new (theme : Theme) (appearance : Appearance) : ({ theme, appearance } : Painter).After theme appearance [] where
  theme_eq := rfl
  appearance_eq := rfl
  lookup_known _ := rfl
  lookups_eq := rfl

/-- A painter knows a reference if and only if it was asked for it and got a colour. -/
theorem lookup_eq_some_iff (h : p.After theme appearance asked) {ref : ColorRef} {color : Color} :
    p.known.lookup ref = some color ↔ ref ∈ asked ∧ theme.colorOf ref = .ok color := by
  rw [h.lookup_known]
  split
  · rename_i hmem
    cases theme.colorOf ref <;> simp [Except.toOption, hmem]
  · rename_i hmem
    simp [hmem]

theorem lookup_eq_none_iff (h : p.After theme appearance asked) {ref : ColorRef} :
    p.known.lookup ref = none ↔ ¬ (ref ∈ asked ∧ theme.fails ref = false) := by
  rw [h.lookup_known, Theme.fails, Theme.error?]
  cases theme.colorOf ref <;> simp [Except.toOption]

/-- **A painter answers as if it remembered nothing.** -/
theorem color (h : p.After theme appearance asked) (ref : ColorRef) :
    ∃ q : Painter, p.color ref = (theme.colorOf ref, q) ∧ q.After theme appearance (asked ++ [ref]) := by
  rw [Painter.color]
  cases hknown : p.known.lookup ref with
  | some color =>
    obtain ⟨hmem, hcolor⟩ := h.lookup_eq_some_iff.1 hknown
    -- It was asked for before, and did not fail: asking once more changes nothing.
    have hfails : theme.fails ref = false := by rw [Theme.fails, Theme.error?, hcolor]; rfl
    refine ⟨p, by rw [hcolor], h.theme_eq, h.appearance_eq, fun other => ?_, ?_⟩
    · have hiff : other ∈ asked ++ [ref] ↔ other ∈ asked := by
        rw [List.mem_append, List.mem_singleton]
        exact ⟨fun ho => ho.elim id fun he => he ▸ hmem, Or.inl⟩
      simp only [hiff, h.lookup_known]
    · rw [Theme.lookupsFor_append_singleton, if_pos ⟨hmem, hfails⟩, List.append_nil, h.lookups_eq]
  | none =>
    have hnew := h.lookup_eq_none_iff.1 hknown
    have hlookups : p.lookups ++ [ref] = theme.lookupsFor (asked ++ [ref]) := by
      rw [Theme.lookupsFor_append_singleton, if_neg hnew, h.lookups_eq]
    obtain rfl := h.theme_eq
    cases hcolor : p.theme.colorOf ref with
    | ok color =>
      refine ⟨_, rfl, rfl, h.appearance_eq, fun other => ?_, hlookups⟩
      simp only [List.lookup_cons, h.lookup_known]
      by_cases he : other = ref
      · subst he; simp [hcolor, Except.toOption]
      · simp [he, beq_eq_false_iff_ne.2 he]
    | error e =>
      refine ⟨_, rfl, rfl, h.appearance_eq, fun other => ?_, hlookups⟩
      rw [h.lookup_known]
      by_cases he : other = ref
      · subst he; simp [hcolor, Except.toOption]
      · simp [he]

/-- What a painter was asked for is such a property. -/
theorem invariant (theme : Theme) (appearance : Appearance) :
    Painter.Invariant theme appearance fun asked p => p.After theme appearance asked where
  styleOf h := by rw [h.theme_eq]
  appearance h := h.appearance_eq
  color h := h.color

theorem span (h : p.After theme appearance asked) (line : String) (token : Token) :
    ∃ q : Painter, p.span line token = (theme.spanOf appearance line token, q) ∧
      q.After theme appearance (asked ++ throughFirst theme.fails (theme.colorsOf line token)) :=
  (invariant theme appearance).span h line token

theorem line (h : p.After theme appearance asked) (sink : Sink κ) (text : String) (tokens : List Token) (k : κ) :
    ∃ q : Painter,
      Painter.line sink text tokens p k =
        ((theme.paint appearance text tokens).2, q, sink.items k (theme.paint appearance text tokens).1) ∧
      q.After theme appearance (asked ++ throughFirst theme.fails (tokens.flatMap (theme.colorsOf text))) :=
  (invariant theme appearance).line h sink text tokens k

/-- A painter asked for good colours only has looked each up once. -/
theorem lookups_of_not_any (h : p.After theme appearance asked) (hasked : asked.any theme.fails = false) :
    p.lookups = asked.eraseDups := by
  have honce := theme.lookupsFor_throughFirst asked
  rw [throughFirst_of_not_any hasked] at honce
  rw [h.lookups_eq, honce]

/-- So has one asked for more of them, up to the first that fails. -/
theorem lookups_of_throughFirst {refs : List ColorRef}
    (h : p.After theme appearance (asked ++ throughFirst theme.fails refs)) (hasked : asked.any theme.fails = false) :
    p.lookups = (asked ++ throughFirst theme.fails refs).eraseDups := by
  rw [h.lookups_eq, ← throughFirst_append_of_not_any hasked, Theme.lookupsFor_throughFirst]

end Painter.After

/-- The painters that painting tokens and lines leads to, from a new one on. Asking a theme for a style
leaves its painter as it is. -/
inductive Painter.Reachable (theme : Theme) (appearance : Appearance) : Painter → Prop
  | new : Reachable theme appearance { theme, appearance }
  | span {p : Painter} (line : String) (token : Token) (reached : Reachable theme appearance p) :
    Reachable theme appearance (p.span line token).2
  | line {p : Painter} {κ : Type} (sink : Sink κ) (text : String) (tokens : List Token) (k : κ)
    (reached : Reachable theme appearance p) : Reachable theme appearance (Painter.line sink text tokens p k).2.1

/-- Whatever was painted, and whether or not it failed, a painter knows what it was asked for. -/
theorem Painter.Reachable.exists_after {p : Painter} {theme : Theme} {appearance : Appearance}
    (h : p.Reachable theme appearance) : ∃ asked, p.After theme appearance asked := by
  induction h with
  | new => exact ⟨[], .new theme appearance⟩
  | span line token _ ih =>
    obtain ⟨asked, hafter⟩ := ih
    obtain ⟨q, hq, hafter'⟩ := hafter.span line token
    rw [hq]
    exact ⟨_, hafter'⟩
  | line sink text tokens k _ ih =>
    obtain ⟨asked, hafter⟩ := ih
    obtain ⟨q, hq, hafter'⟩ := hafter.line sink text tokens k
    rw [hq]
    exact ⟨_, hafter'⟩

/-- A painter in use makes the span of a token whose colours are decoded anew. -/
theorem Painter.Reachable.span_eq {p : Painter} {theme : Theme} {appearance : Appearance}
    (h : p.Reachable theme appearance) (line : String) (token : Token) :
    (p.span line token).1 = theme.spanOf appearance line token := by
  obtain ⟨asked, hafter⟩ := h.exists_after
  obtain ⟨q, hq, -⟩ := hafter.span line token
  rw [hq]

end Highlight
