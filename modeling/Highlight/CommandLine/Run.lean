/-
Running a command: from an invocation, an environment and what was read to the
text that is printed or the words of an error. The catalogue and the texts
about the command line itself are given from outside.
-/
import Highlight.Bundled
import Highlight.CommandLine.Parse
import Highlight.Document.Print

namespace Highlight.CommandLine

/-- Why an input cannot be read. -/
inductive ReadError where
  | notFound
  | directory
  | notDirectory
  | denied
  | notText
  deriving DecidableEq, Repr

def ReadError.message : ReadError → String
  | notFound => "No such file or directory (os error 2)"
  | directory => "Is a directory (os error 21)"
  | notDirectory => "Not a directory (os error 20)"
  | denied => "Permission denied (os error 13)"
  | notText => "stream did not contain valid UTF-8"

/-- What a command reads. -/
inductive Input where
  | nothing
  | stdin
  | file (path : String)
  deriving DecidableEq, Repr

def Command.input : Command → Input
  | .render (some path) _ _ => .file path
  | .render none _ _ => .stdin
  | .themes | .languages | .completions _ => .nothing

def Input.name : Input → String
  | .nothing => ""
  | .stdin => "stdin"
  | .file path => path

/-! ## File names -/

namespace Path

/-- The parts of a path between its slashes; a single dot stands for no part of its own. -/
def parts (path : String) : List (List Char) :=
  (Text.cut (· == '/') path.toList).filter fun part => part != [] && part != ['.']

/-- The last part, unless it leads upwards. -/
def fileName? (path : String) : Option (List Char) :=
  match (parts path).getLast? with
  | some ['.', '.'] => none
  | name => name

/-- What follows the last dot of a file name, if something precedes that dot. -/
def extension? (path : String) : Option String := do
  let name ← fileName? path
  let tail := (name.reverse.takeWhile (· != '.')).reverse
  if tail.length + 1 < name.length then some (String.ofList tail) else none

end Path

/-! ## Commands -/

/-- The settings of the environment, under the theme and the appearance asked for. -/
def Invocation.config (inv : Invocation) (env : Environment) : Config :=
  let config := (Config.ofEnvironment env).1
  { config with
    theme := inv.theme.getD config.theme
    appearance := inv.appearance.getD config.appearance }

/-- The language to render in: the one asked for, else the extension of the file, else the fallback. -/
def languageOf (file language : Option String) (config : Config) : String :=
  (language <|> file.bind Path.extension?).getD config.fallbackLanguage

/-- A text with blanks after it up to `width` characters. -/
def pad (width : Nat) (s : String) : String := s ++ String.ofList (List.replicate (width - s.length) ' ')

def themeList (c : Catalog π) : String := String.join (c.themeNames.map (· ++ "\n"))

/-- One line for each language: name, scope and extensions. -/
def languageList (c : Catalog π) : String :=
  String.join (c.listing.map fun l =>
    pad 32 l.name ++ " " ++ pad 28 l.scope ++ " " ++ String.intercalate "," l.extensions ++ "\n")

def programName : String := "codetint"

/-- The texts about the command line itself. They are made elsewhere, out of a description of the command line; where
none are given, the name of the program stands for each. -/
structure Manual where
  help : String := programName ++ "\n"
  /-- The script that lets a shell complete the command line. -/
  completions : Shell → String := fun _ => programName ++ "\n"

/-- Runs a command with what was read for it. -/
def Invocation.run (inv : Invocation) (env : Environment) (read : Except ReadError String)
    (catalog : Catalog Language.Contexts := Bundled.catalog) (manual : Manual := {}) : Except String String :=
  match inv.command with
  | .themes => .ok (themeList catalog)
  | .languages => .ok (languageList catalog)
  | .completions shell => .ok (manual.completions shell)
  | .render file language json =>
    match read with
    | .error e => .error ("failed to read " ++ inv.command.input.name ++ ": " ++ e.message)
    | .ok code =>
      let config := inv.config env
      let language := languageOf file language config
      let format := if json then Format.json else .terminal
      match ((Highlighter.new catalog.backend config ()).print format code language).1 with
      | .ok text => .ok text
      | .error (.error e) => .error (e.inLanguage language)
      | .error .panic => .error ("failed to render as '" ++ language ++ "'")

def versionText : String := programName ++ " 0.1.0\n"

/-- What a run of the program shows and the code it exits with. -/
structure Outcome where
  code : UInt8
  stdout : String := ""
  stderr : String := ""
  deriving DecidableEq, Repr

def errorLead : String := programName ++ " error: "

def Stop.outcome (stop : Stop) (manual : Manual := {}) : Outcome :=
  match stop with
  | .help => { code := 0, stdout := manual.help }
  | .version => { code := 0, stdout := versionText }
  | .usage e => { code := 2, stderr := "error: " ++ e.message ++ "\n" }

def outcomeOf : Except String String → Outcome
  | .ok text => { code := 0, stdout := text }
  | .error message => { code := 1, stderr := errorLead ++ message ++ "\n" }

end Highlight.CommandLine
