/-
What can stand on the command line: commands, and the options that each of
them takes.
-/
import Highlight.Appearance

namespace Highlight.CommandLine

/-- The shells that completions can be printed for. -/
inductive Shell where
  | bash
  | elvish
  | fish
  | powershell
  | zsh
  deriving DecidableEq, Repr

def Shell.ofName? : String → Option Shell
  | "bash" => some bash
  | "elvish" => some elvish
  | "fish" => some fish
  | "powershell" => some powershell
  | "zsh" => some zsh
  | _ => none

/-- A part of the command line: that before any command, or that of a command. -/
inductive Level where
  | top
  | render
  | themes
  | languages
  | completions
  deriving DecidableEq, Repr

/-- The commands by name. -/
def Level.ofCommand? : String → Option Level
  | "render" => some render
  | "themes" => some themes
  | "languages" => some languages
  | "completions" => some completions
  | _ => none

inductive Flag where
  | theme
  | appearance
  | language
  | json
  | help
  | version
  deriving DecidableEq, Repr

namespace Flag

def takesValue : Flag → Bool
  | theme | appearance | language => true
  | json | help | version => false

def letter : Flag → Char
  | theme => 't'
  | appearance => 'a'
  | language => 'l'
  | json => 'j'
  | help => 'h'
  | version => 'V'

def name : Flag → String
  | theme => "theme"
  | appearance => "appearance"
  | language => "language"
  | json => "json"
  | help => "help"
  | version => "version"

end Flag

/-- The flags known in a part. -/
def Level.flags : Level → List Flag
  | top => [.theme, .appearance, .help, .version]
  | render => [.theme, .appearance, .language, .json, .help]
  | themes | languages | completions => [.theme, .appearance, .help]

/-- Why a command line is refused. -/
inductive UsageError where
  | unexpected (argument : String)
  | unknownCommand (name : String)
  | missingCommand
  | missingShell
  | missingValue (name : String)
  | repeated (flag : Flag)
  | emptyFile
  | unknownShell (name : String)
  | unknownAppearance (cause : Appearance.Unknown)
  /-- A variable that stands in for an option is not set to a text. -/
  | notText (name : String)
  deriving DecidableEq, Repr

def UsageError.message : UsageError → String
  | unexpected argument => "unexpected argument '" ++ argument ++ "' found"
  | unknownCommand name => "unrecognized subcommand '" ++ name ++ "'"
  | missingCommand => "a subcommand is required but one was not provided"
  | missingShell => "the following required arguments were not provided: <SHELL>"
  | missingValue name => "a value is required for '" ++ name ++ "' but none was supplied"
  | repeated flag => "the argument '--" ++ flag.name ++ "' cannot be used multiple times"
  | emptyFile => "a value is required for '[FILE]' but none was supplied"
  | unknownShell name => "invalid value '" ++ name ++ "' for '<SHELL>'"
  | unknownAppearance cause => "invalid value for '--appearance': " ++ cause.message
  | notText name => "invalid UTF-8 was detected in " ++ name

/-- Why reading the command line ends early: a question to be answered, or an error. -/
inductive Stop where
  | help
  | version
  | usage (cause : UsageError)
  deriving DecidableEq, Repr

end Highlight.CommandLine
