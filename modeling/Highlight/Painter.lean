/-
Painting tokens: from a line, a token, a theme and an appearance to a span. A
`Painter` remembers the colours that it has decoded, so that a good colour is
looked up once, and records every lookup. `Painter.line` paints one line into
a sink and stops at the first colour that cannot be had.
-/
import Highlight.Backend
import Highlight.Document
import Highlight.Text.Bytes

namespace Highlight

/-- The colour that the theme gives for a reference. -/
def Theme.colorOf (theme : Theme) (ref : ColorRef) : Except ColorError Color :=
  match theme.colorText ref with
  | some text => Color.ofHex text
  | none => .error (.missing ref)

structure Painter where
  theme : Theme
  appearance : Appearance
  /-- The colours decoded so far. -/
  known : List (ColorRef × Color) := []
  /-- The references that the theme was asked for, in order. -/
  lookups : List ColorRef := []

namespace Painter

/-- The colour behind a reference, remembered if it decodes. -/
def color (p : Painter) (ref : ColorRef) : Except ColorError Color × Painter :=
  match p.known.lookup ref with
  | some color => (.ok color, p)
  | none =>
    match p.theme.colorOf ref with
    | .ok color => (.ok color, { p with known := (ref, color) :: p.known, lookups := p.lookups ++ [ref] })
    | .error e => (.error e, { p with lookups := p.lookups ++ [ref] })

/-- The foreground of a style, or that of the appearance if it sets none. -/
def foreground (p : Painter) (style : Style) : Except ColorError Color × Painter :=
  match style.foreground with
  | some ref => p.color ref
  | none => (.ok p.appearance.foreground, p)

def background (p : Painter) (style : Style) : Except ColorError (Option Color) × Painter :=
  match style.background with
  | some ref =>
    match p.color ref with
    | (.ok color, p) => (.ok (some color), p)
    | (.error e, p) => (.error e, p)
  | none => (.ok none, p)

/-- The span of a token, or none if no character of the line ends in the token. The foreground
is decoded before the background. -/
def span (p : Painter) (line : String) (token : Token) : Except ColorError (Option Span) × Painter :=
  match Text.Bytes.clamp line token.start token.stop with
  | none => (.ok none, p)
  | some range =>
    let style := p.theme.styleOf token.scopes
    match p.foreground style with
    | (.error e, p) => (.error e, p)
    | (.ok foreground, p) =>
      match p.background style with
      | (.error e, p) => (.error e, p)
      | (.ok background, p) =>
        (.ok (some ⟨Text.Bytes.slice line range, foreground, background, .ofBits style.font⟩), p)

/-- Paints a line: its spans in the order of the tokens, then a line break. After an error nothing
more is painted. -/
def line (sink : Sink κ) (text : String) : List Token → Painter → κ → Except ColorError Unit × Painter × κ
  | [], p, k => (.ok (), p, sink.lineBreak k)
  | token :: tokens, p, k =>
    match p.span text token with
    | (.error e, p) => (.error e, p, k)
    | (.ok none, p) => line sink text tokens p k
    | (.ok (some span), p) => line sink text tokens p (sink.span k span)

end Painter

end Highlight
