import Telemetry.Settings.CommandLine

/-!
# The program

Shows the settings that an agent or a server would run with, as they result from the command line,
the environment and the settings file, or says why it could not run.
-/

open Telemetry Telemetry.Settings

def readTextFile (path : String) : IO (Except FileFault String) := do
  try
    let bytes ← IO.FS.readBinFile path
    return match Bytes.toString? bytes.toList with
      | some text => .ok text
      | none => .error .notText
  catch error =>
    return match error with
      | .inappropriateType .. => .error .isDirectory
      | _ => .error .notFound

/-- The environment variables that flags can be given by. -/
def readVariables {σ : Type} (flags : List (Flag σ)) : IO (List (String × String)) :=
  flags.filterMapM fun flag => do
    return (← IO.getEnv flag.envName).map fun value => (flag.envName, value)

/-- Shows settings, or the failure that stands in their place. -/
def report (result : Except Failure (List Char)) : IO UInt32 := do
  match result with
  | .ok text =>
    IO.println (String.ofList text)
    return 0
  | .error failure =>
    IO.eprintln failure.message
    return 1

def refuse (usage : Usage) : IO UInt32 := do
  IO.eprintln usage.message
  return if usage == .help then 0 else 2

/-- The file that a command line names, read, for all paths alike. -/
def readNamed (config : Option String) : IO TextFiles := do
  match config with
  | none => return fun _ => .error .notFound
  | some path =>
    let text ← readTextFile path
    return fun _ => text

def showAgent (arguments : List String) : IO UInt32 := do
  let environment ← readVariables AgentOverrides.flags
  match CommandLine.read AgentOverrides.flags AgentOverrides.none arguments environment with
  | .error usage => refuse usage
  | .ok overrides =>
    let files ← readNamed overrides.config
    report do
      let settings ← overrides.toSettings files
      settings.validate
      return settings.write

def showServer (arguments : List String) : IO UInt32 := do
  let environment ← readVariables ServerOverrides.flags
  match CommandLine.read ServerOverrides.flags ServerOverrides.none arguments environment with
  | .error usage => refuse usage
  | .ok overrides =>
    let files ← readNamed overrides.config
    report do
      let settings ← overrides.toSettings files
      let _ ← settings.subnet
      return settings.write

/-- The first argument says whose settings are meant. -/
def main (arguments : List String) : IO UInt32 :=
  match arguments with
  | "agent" :: rest => showAgent rest
  | "server" :: rest => showServer rest
  | _ => refuse .unknownArgument
