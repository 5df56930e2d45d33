/-
Rendering a text. `Highlighter.render` resolves the language and the theme,
runs the grammar over the lines and paints each line as it comes. The first
failure ends the rendering; whatever it was, the cache stays usable.
-/
import Highlight.Cache
import Highlight.Config
import Highlight.Lexing
import Highlight.Painter

namespace Highlight

/-- What a run over the lines of a text leaves behind. -/
structure Pass (σ κ : Type) where
  result : Except RenderError Unit
  sink : κ
  painter : Painter
  lexing : Lexing σ

/-- Lexes and paints line after line into a sink, up to the first failure. -/
def Pass.run (sink : Sink κ) (lexing : Lexing σ) (painter : Painter) (k : κ) : Pass σ κ :=
  match _h : lexing.next with
  | (none, lexing) => ⟨.ok (), k, painter, lexing⟩
  | (some (.error e), lexing) => ⟨.error e, k, painter, lexing⟩
  | (some (.ok line), lexing) =>
    match painter.line sink line.text line.tokens k with
    | (.error e, painter, k) => ⟨.error (.color e), k, painter, lexing⟩
    | (.ok (), painter, k) => Pass.run sink lexing painter k
termination_by lexing.rest.length
decreasing_by
  have := Lexing.length_rest_of_next _h
  omega

/-- A renderer: a backend, settings, and the cache filled so far. -/
structure Highlighter (β σ : Type) where
  backend : Backend β σ
  config : Config
  cache : Cache σ
  session : Session β

/-- A rendering: how it ended, the renderer afterwards, what the grammar was given and which colours
were looked up. -/
structure Rendering (β σ : Type) where
  result : Except Failure Document
  highlighter : Highlighter β σ
  calls : List (Call σ) := []
  lookups : List ColorRef := []

namespace Highlighter

/-- A renderer with an empty cache. -/
def new (backend : Backend β σ) (config : Config) (state : β) : Highlighter β σ where
  backend
  config
  cache := { fallback := config.fallbackLanguage }
  session := { state }

/-- The pair for a language and a theme. -/
def resolve (h : Highlighter β σ) (language theme : String) :
    Except Failure (Cache.Entry σ) × Highlighter β σ :=
  let (answer, cache, session) := h.cache.resolve h.backend ⟨language, theme⟩ h.session
  (answer, { h with cache, session })

/-- Renders a text with a grammar and a theme. -/
def render (h : Highlighter β σ) (code language theme : String) (appearance : Appearance) :
    Rendering β σ :=
  match h.resolve language theme with
  | (.error e, h) => { result := .error e, highlighter := h }
  | (.ok entry, h) =>
    let pass := Pass.run .collect (.start entry.grammar code h.config.trace) { theme := entry.theme, appearance } #[]
    let session := { h.session with events := h.session.events ++ pass.lexing.events }
    let calls := pass.lexing.calls
    let lookups := pass.painter.lookups
    match pass.result with
    | .error e => { result := .error (.error e), highlighter := { h with session }, calls, lookups }
    | .ok () =>
      let items := pass.sink.toList
      let done := .renderDone language entry.grammar.scope theme appearance (Text.Bytes.size code.toList) items.length
      { result := .ok { items, source := some entry.source }
        highlighter := { h with session := session.log done }
        calls
        lookups }

/-- Renders a text with the theme and the appearance of the settings. -/
def renderDefault (h : Highlighter β σ) (code language : String) : Rendering β σ :=
  h.render code language h.config.theme h.config.appearance

end Highlighter

end Highlight
