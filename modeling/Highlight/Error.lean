/-
Why rendering fails. `RenderError.message` gives the words; `Failure` adds the
case of a load that breaks off without an answer.
-/
import Highlight.Color

namespace Highlight

inductive RenderError where
  /-- A colour that a token needs cannot be had. -/
  | color (cause : ColorError)
  | unknownTheme (name : String)
  /-- Neither the language nor the fallback language has a grammar. -/
  | grammarUnavailable (language fallback : String)
  /-- A grammar gave up, with these words. -/
  | tokenizer (text : String)
  deriving DecidableEq, Repr

def RenderError.message : RenderError → String
  | .color cause => "Format error: " ++ cause.message
  | .unknownTheme name => "Unknown theme: " ++ name
  | .grammarUnavailable language fallback =>
    "No grammar for '" ++ language ++ "' and fallback '" ++ fallback ++ "' is unavailable"
  | .tokenizer text => "Tokenizer error: " ++ text

/-- How a request ends without a value: with an error, or by a load that panicked. -/
inductive Failure where
  | error (cause : RenderError)
  | panic
  deriving DecidableEq, Repr

end Highlight
