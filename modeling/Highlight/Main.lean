/-
The program: reads its arguments, its environment and the input it is asked to
render, and prints what `CommandLine` makes of them.
-/
import Highlight.CommandLine.Run

open Highlight CommandLine

/-- The variables that the program looks at, as they are set. -/
def readEnvironment : IO Environment := do
  let names :=
    [Config.themeVariable, Config.appearanceVariable, Config.fallbackLanguageVariable, Config.traceVariable]
  names.foldlM (fun env name => return env.put name ((← IO.getEnv name).map .text)) Environment.empty

def decodeInput (bytes : ByteArray) : Except ReadError String :=
  match String.fromUTF8? bytes with
  | some text => .ok text
  | none => .error .notText

def readFile (path : String) : IO (Except ReadError String) := do
  try
    return decodeInput (← IO.FS.readBinFile path)
  catch
    | .noFileOrDirectory .. => return .error .notFound
    | .permissionDenied .. => return .error .denied
    | .inappropriateType .. => return .error .directory
    | _ => return .error .notFound

def readInput : Input → IO (Except ReadError String)
  | .nothing => return .ok ""
  | .stdin => return decodeInput (← (← IO.getStdin).readBinToEnd)
  | .file path => readFile path

def main (args : List String) : IO UInt32 := do
  let env ← readEnvironment
  let outcome ← match CommandLine.parse env args with
    | .error stop => pure stop.outcome
    | .ok inv => do
      let read ← readInput inv.command.input
      pure (outcomeOf (inv.run env read))
  IO.print outcome.stdout
  IO.eprint outcome.stderr
  return outcome.code.toUInt32
