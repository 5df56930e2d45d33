/-
The settings of a renderer: their defaults, and how the environment sets them.
Blank and unset variables leave the default.
-/
import Highlight.Environment
import Highlight.Event

namespace Highlight

structure Config where
  theme : String := "base16-ocean.dark"
  appearance : Appearance := .default
  fallbackLanguage : String := "text.plain"
  /-- Whether each tokenized line is logged. -/
  trace : Bool := false
  deriving DecidableEq, Repr, Inhabited

namespace Config

def themeVariable : String := "CODETINT_THEME"

def appearanceVariable : String := "CODETINT_APPEARANCE"

def fallbackLanguageVariable : String := "CODETINT_FALLBACK_LANGUAGE"

def traceVariable : String := "CODETINT_TRACE"

/-- The truth value that a text stands for, if it stands for one. Case and outer blanks do not count,
and a blank text means no. -/
def parseFlag (text : String) : Option Bool :=
  match Text.lowerAscii (Text.trim text) with
  | "1" | "true" | "yes" | "on" => some true
  | "" | "0" | "false" | "no" | "off" => some false
  | _ => none

/-- A variable that is unset or stands for no truth value means no. -/
def flag (env : Environment) (name : String) : Bool := ((env.text? name).bind parseFlag).getD false

/-- The text of a variable without outer blanks, unless nothing is left of it. -/
def setting? (env : Environment) (name : String) : Option String :=
  ((env.text? name).map Text.trim).filter (! ·.isEmpty)

/-- The appearance that the environment asks for. A text that names none is logged and ignored. -/
def environmentAppearance (env : Environment) : Appearance × List Event :=
  match env.text? appearanceVariable with
  | none => (.default, [])
  | some text =>
    match Appearance.parse text with
    | .ok appearance => (appearance, [])
    | .error e => (.default, [.appearanceIgnored appearanceVariable e])

/-- The settings of an environment, and what is logged while they are read. -/
def ofEnvironment (env : Environment) : Config × List Event :=
  let (appearance, events) := environmentAppearance env
  let defaults : Config := {}
  ({ theme := (setting? env themeVariable).getD defaults.theme
     appearance
     fallbackLanguage := (setting? env fallbackLanguageVariable).getD defaults.fallbackLanguage
     trace := flag env traceVariable },
    events)

end Config

end Highlight
