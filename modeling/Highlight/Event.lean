/-
What is logged: one constructor per kind of event. `Event.level`,
`Event.message` and `Event.fields` give what a reader of the log sees.
-/
import Highlight.Error
import Highlight.Appearance

namespace Highlight

inductive Event where
  | cacheHit (language theme : String)
  | cacheMiss (language theme : String)
  /-- A slot is used again after a load in it panicked. -/
  | slotRecovered
  | grammarUnregistered (language fallback : String)
  | grammarBroken (language fallback : String) (cause : RenderError)
  | lineTokenized (grammar : String) (line size tokens : Nat)
  | renderDone (language grammar theme : String) (appearance : Appearance) (textSize items : Nat)
  | appearanceIgnored (setting : String) (cause : Appearance.Unknown)
  deriving DecidableEq, Repr

namespace Event

inductive Level where
  | debug
  | info
  | warn
  deriving DecidableEq, Repr

def Level.name : Level → String
  | debug => "DEBUG"
  | info => "INFO"
  | warn => "WARN"

/-- The part of the program that logs an event. -/
inductive Area where
  | resolver
  | tokenize
  | render
  | config
  deriving DecidableEq, Repr

inductive Field where
  | text (value : String)
  | number (value : Nat)
  deriving DecidableEq, Repr

def level : Event → Level
  | cacheHit .. | cacheMiss .. => .debug
  | lineTokenized .. | renderDone .. => .info
  | slotRecovered | grammarUnregistered .. | grammarBroken .. | appearanceIgnored .. => .warn

def area : Event → Area
  | cacheHit .. | cacheMiss .. | slotRecovered | grammarUnregistered .. | grammarBroken .. => .resolver
  | lineTokenized .. => .tokenize
  | renderDone .. => .render
  | appearanceIgnored .. => .config

def message : Event → String
  | cacheHit .. => "resolver cache hit"
  | cacheMiss .. => "resolver cache miss"
  | slotRecovered => "resolver slot mutex was poisoned; recovering"
  | grammarUnregistered .. => "no grammar registered; using fallback"
  | grammarBroken .. => "grammar load failed; using fallback"
  | lineTokenized .. => "tokenized line"
  | renderDone .. => "render pass"
  | appearanceIgnored setting cause => "ignoring " ++ setting ++ ": " ++ cause.message

/-- The named values of an event besides its message. -/
def fields : Event → List (String × Field)
  | cacheHit language theme | cacheMiss language theme =>
    [("language", .text language), ("theme", .text theme)]
  | slotRecovered | appearanceIgnored .. => []
  | grammarUnregistered language fallback =>
    [("language", .text language), ("fallback", .text fallback)]
  | grammarBroken language fallback cause =>
    [("language", .text language), ("fallback", .text fallback), ("error", .text cause.message)]
  | lineTokenized grammar line size tokens =>
    [("event", .text "line"), ("grammar", .text grammar), ("line", .number line), ("len", .number size),
      ("tokens", .number tokens)]
  | renderDone language grammar theme appearance textSize items =>
    [("event", .text "render_done"), ("language", .text language), ("grammar", .text grammar),
      ("theme", .text theme), ("appearance", .text appearance.name), ("text_len", .number textSize),
      ("items", .number items)]

end Event

end Highlight
