/-
Reading the command line. An option's value is judged as soon as another flag
or operand comes, or at the end; help and version are answered where they
stand. The options before a command are judged after those of the command.
Variables of the environment stand in, part by part, for options not given.
-/
import Highlight.CommandLine.Options
import Highlight.Config

namespace Highlight.CommandLine

/-- What has been given in one part of the command line. -/
structure Given where
  theme : Option String := none
  appearance : Option Appearance := none
  language : Option String := none
  json : Bool := false
  file : Option String := none
  shell : Option Shell := none
  deriving DecidableEq, Repr

/-- What a value is for. -/
inductive Target where
  | flag (flag : Flag)
  | file
  | shell
  deriving DecidableEq, Repr

def Target.name : Target → String
  | flag f => "--" ++ f.name
  | file => "[FILE]"
  | shell => "<SHELL>"

/-- What has been given and judged, and what still waits: a target, and its value if it has come. -/
structure Progress where
  given : Given := {}
  pending : Option (Target × Option String) := none
  deriving DecidableEq, Repr

namespace Given

/-- Takes a value. No target takes two. -/
def set (g : Given) (target : Target) (value : String) : Except UsageError Given :=
  match target with
  | .flag .theme => if g.theme.isSome then .error (.repeated .theme) else .ok { g with theme := some value }
  | .flag .appearance =>
    if g.appearance.isSome then .error (.repeated .appearance)
    else match Appearance.parse value with
      | .ok appearance => .ok { g with appearance := some appearance }
      | .error e => .error (.unknownAppearance e)
  | .flag .language =>
    if g.language.isSome then .error (.repeated .language) else .ok { g with language := some value }
  | .flag f => .error (.unexpected f.name)
  | .file => if value.isEmpty then .error .emptyFile else .ok { g with file := some value }
  | .shell =>
    match Shell.ofName? value with
    | some shell => .ok { g with shell := some shell }
    | none => .error (.unknownShell value)

end Given

namespace Progress

/-- Judges what waits. -/
def settle (p : Progress) : Except UsageError Given :=
  match p.pending with
  | none => .ok p.given
  | some (target, none) => .error (.missingValue target.name)
  | some (target, some value) => p.given.set target value

/-- Whether an option waits for its value. -/
def waits (p : Progress) : Bool :=
  match p.pending with
  | some (_, none) => true
  | _ => false

/-- Judges what waits, then takes a value that stands with its flag. -/
def attach (p : Progress) (flag : Flag) (value : String) : Except UsageError Progress := do
  let given ← p.settle
  return { given := ← given.set (.flag flag) value }

/-- Judges what waits, then lets a target wait, with its value if it is known. -/
def await (p : Progress) (target : Target) (value : Option String) : Except UsageError Progress := do
  return { given := ← p.settle, pending := some (target, value) }

/-- A flag without a value. -/
def raise (p : Progress) (flag : Flag) : Except Stop Progress :=
  match p.settle with
  | .error e => .error (.usage e)
  | .ok given =>
    match flag with
    | .help => .error .help
    | .version => .error .version
    | .json => if given.json then .error (.usage (.repeated .json)) else .ok { given := { given with json := true } }
    | _ => .error (.usage (.missingValue flag.name))

end Progress

def usage (r : Except UsageError α) : Except Stop α := r.mapError .usage

/-- Reads the letters of a cluster. The letter of an option takes the rest as its value, without a
leading equals sign, or waits for one if nothing is left. -/
def readCluster (level : Level) : List Char → Progress → Except Stop Progress
  | [], p => .ok p
  | c :: cs, p =>
    match level.flags.find? (·.letter = c) with
    | none => .error (.usage (.unexpected (String.ofList ['-', c])))
    | some flag =>
      if flag.takesValue then
        match cs with
        | [] => usage (p.await (.flag flag) none)
        | '=' :: value => usage (p.attach flag (String.ofList value))
        | value => usage (p.attach flag (String.ofList value))
      else
        match p.raise flag with
        | .error e => .error e
        | .ok p => readCluster level cs p

/-- Reads what follows two minus signs: a name, and a value after an equals sign. -/
def readLong (level : Level) (cs : List Char) (p : Progress) : Except Stop Progress :=
  let name := String.ofList (cs.takeWhile (· != '='))
  let value := match cs.dropWhile (· != '=') with
    | _ :: rest => some (String.ofList rest)
    | [] => none
  match level.flags.find? (·.name = name), value with
  | none, _ => .error (.usage (.unexpected ("--" ++ name)))
  | some flag, some value =>
    if flag.takesValue then usage (p.attach flag value) else .error (.usage (.unexpected value))
  | some flag, none => if flag.takesValue then usage (p.await (.flag flag) none) else p.raise flag

/-- Whether the operand of a part has been given already. -/
def Progress.hasOperand (p : Progress) : Target → Bool
  | .file => p.given.file.isSome || p.pending.any (·.1 = .file)
  | .shell => p.given.shell.isSome || p.pending.any (·.1 = .shell)
  | .flag _ => false

def Level.operand? : Level → Option Target
  | .render => some .file
  | .completions => some .shell
  | .top | .themes | .languages => none

/-- Reads an operand, of which a part has at most one. -/
def readOperand (level : Level) (arg : String) (p : Progress) : Except Stop Progress :=
  match level.operand? with
  | none => .error (.usage (if level = .top then .unknownCommand arg else .unexpected arg))
  | some target =>
    if p.hasOperand target then .error (.usage (.unexpected arg)) else usage (p.await target (some arg))

def readOperands (level : Level) (args : List String) (p : Progress) : Except Stop Progress :=
  args.foldlM (fun p arg => readOperand level arg p) p

/-- Answers a request for help: on nothing, or on a command. -/
def helpOn : List String → Stop
  | [] | ["help"] => .help
  | name :: more =>
    match Level.ofCommand? name, more with
    | some _, [] => .help
    | none, _ => .usage (.unknownCommand name)
    | some _, other :: _ => .usage (.unknownCommand other)

/-- Reads one part of the command line, up to a command if it is the first part. -/
def readLevel (level : Level) : List String → Progress → Except Stop (Progress × Option (Level × List String))
  | [], p => .ok (p, none)
  | arg :: args, p =>
    let go (r : Except Stop Progress) : Except Stop (Progress × Option (Level × List String)) :=
      match r with
      | .error e => .error e
      | .ok p => readLevel level args p
    let command := if level = .top ∧ p.waits = false then Level.ofCommand? arg else none
    match command with
    | some next => .ok (p, some (next, args))
    | none =>
      if level = .top ∧ p.waits = false ∧ arg = "help" then .error (helpOn args)
      else match arg.toList with
        | ['-', '-'] => (readOperands level args p).map fun p => (p, none)
        | '-' :: '-' :: cs => go (readLong level cs p)
        | '-' :: c :: cs => go (readCluster level (c :: cs) p)
        | _ =>
          match p.pending with
          | some (target, none) => go (.ok { p with pending := some (target, some arg) })
          | _ => go (readOperand level arg p)

/-- Judges the variables that stand in for options not given. -/
def checkVariables (env : Environment) (g : Given) : Except UsageError Unit := do
  if g.theme.isNone then
    if let some (.bytes _) := env.get Config.themeVariable then throw (.notText Config.themeVariable)
  if g.appearance.isNone then
    match env.get Config.appearanceVariable with
    | some (.bytes _) => throw (.notText Config.appearanceVariable)
    | some (.text text) =>
      if let .error e := Appearance.parse text then throw (.unknownAppearance e)
    | none => pure ()

/-- What a command line asks for. -/
inductive Command where
  | render (file language : Option String) (json : Bool)
  | themes
  | languages
  | completions (shell : Shell)
  deriving DecidableEq, Repr

/-- The command of a part, once all of the part has been judged. -/
def commandOf (level : Level) (g : Given) : Except UsageError Command :=
  match level with
  | .top => .error .missingCommand
  | .render => .ok (.render g.file g.language g.json)
  | .themes => .ok .themes
  | .languages => .ok .languages
  | .completions =>
    match g.shell with
    | some shell => .ok (.completions shell)
    | none => .error .missingShell

/-- A command with the theme and the appearance asked for, by options or by variables. -/
structure Invocation where
  theme : Option String
  appearance : Option Appearance
  command : Command
  deriving DecidableEq, Repr

/-- The theme and the appearance of a command line: what its command was given, else what was given
before the command, else what the variables say. -/
def invocation (env : Environment) (outer inner : Given) (command : Command) : Invocation where
  theme := inner.theme <|> outer.theme <|> env.text? Config.themeVariable
  appearance :=
    inner.appearance <|> outer.appearance
      <|> (env.text? Config.appearanceVariable).bind fun text => (Appearance.parse text).toOption
  command

/-- Judges a part to its end. -/
def finish (env : Environment) (p : Progress) : Except UsageError Given := do
  let given ← p.settle
  checkVariables env given
  return given

/-- What the arguments ask for in an environment. -/
def parse (env : Environment) (args : List String) : Except Stop Invocation := do
  match ← readLevel .top args {} with
  | (outer, none) =>
    let _ ← usage (finish env outer)
    throw (.usage .missingCommand)
  | (outer, some (level, rest)) =>
    let (inner, _) ← readLevel level rest {}
    let inner ← usage (finish env inner)
    let command ← usage (commandOf level inner)
    let outer ← usage (finish env outer)
    return invocation env outer inner command

end Highlight.CommandLine
