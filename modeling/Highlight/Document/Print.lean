/-
Printing documents. In terminal text each span stands between an escape
sequence that sets its colours and emphasis and one that resets them, and a
line break is a line feed. In JSON a document is an array with one object per
item, whose `kind` tells spans from line breaks. `Highlighter.print` renders a
text with the settings of a renderer and prints it.
-/
import Highlight.Highlighter
import Highlight.Json

namespace Highlight

/-! ## Terminal text -/

namespace Ansi

def escape : Char := '\x1b'

/-- A number in decimal digits. -/
def decimal (n : Nat) : String := toString n

/-- The parameters that select a colour after `kind`, which is 38 for the foreground and 48 for
the background. -/
def colorCodes (kind : Nat) (c : Color) : List Nat := [kind, 2, c.red.toNat, c.green.toNat, c.blue.toNat]

/-- The parameters that a span is shown with. -/
def codes (s : Span) : List Nat :=
  colorCodes 38 s.foreground
    ++ (match s.background with | some c => colorCodes 48 c | none => [])
    ++ (if s.emphasis.bold then [1] else [])
    ++ (if s.emphasis.italic then [3] else [])
    ++ (if s.emphasis.underline then [4] else [])

/-- The escape sequence with these parameters. -/
def sequence (codes : List Nat) : String :=
  "\x1b[" ++ String.intercalate ";" (codes.map decimal) ++ "m"

def span (s : Span) : String := sequence (codes s) ++ s.text ++ sequence [0]

/-- Appends terminal text. -/
def sink : Sink String where
  span k s := k ++ span s
  lineBreak k := k ++ "\n"

/-- The terminal text of a list of items. -/
def text (items : List Item) : String := sink.items "" items

end Ansi

/-! ## JSON -/

def Color.json (c : Color) : Json :=
  .object [("r", .nat c.red.toNat), ("g", .nat c.green.toNat), ("b", .nat c.blue.toNat)]

def Emphasis.json (e : Emphasis) : Json :=
  .object [("bold", .bool e.bold), ("italic", .bool e.italic), ("underline", .bool e.underline)]

def Item.json : Item → Json
  | .span s =>
    .object [("kind", .text "span"), ("text", .text s.text), ("foreground", s.foreground.json),
      ("background", match s.background with | some c => c.json | none => .null), ("attributes", s.emphasis.json)]
  | .lineBreak => .object [("kind", .text "line_break")]

/-- The items of the document, in order. -/
def Document.json (doc : Document) : Json := .array (doc.items.map Item.json)

/-! ## Either of them -/

inductive Format where
  | terminal
  | json
  deriving DecidableEq, Repr

def Document.print (doc : Document) : Format → String
  | .terminal => doc.replay Ansi.sink ""
  | .json => doc.json.pretty

/-- The words for a rendering that failed. -/
def RenderError.inLanguage (e : RenderError) (language : String) : String :=
  "failed to render as '" ++ language ++ "': " ++ e.message

/-- Renders a text in the default theme and appearance and prints the document. -/
def Highlighter.print (h : Highlighter β σ) (format : Format) (code language : String) :
    Except Failure String × Highlighter β σ :=
  let rendering := h.renderDefault code language
  (rendering.result.map (·.print format), rendering.highlighter)

end Highlight
