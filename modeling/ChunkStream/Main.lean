import ChunkStream.Launch
import ChunkStream.Store.Path

/-!
# The command line program

The outer layer: it reads arguments and files, keeps the time and prints log
lines.  What a run does is decided by `Launch` and `Simulation`.
-/

namespace ChunkStream

def versionText : String := "strata 0.1.0"

def helpText : String :=
  "Headless chunk streaming driver\n\nUsage: strata [OPTIONS]\n\nOptions:\n"
    ++ "      --config <CONFIG>    Configuration file [default: strata.toml]\n"
    ++ "      --ticks <TICKS>      Number of ticks to run\n"
    ++ "      --workers <WORKERS>  Number of workers\n"
    ++ "      --budget <BUDGET>    Chunks kept in memory\n"
    ++ "      --seed <SEED>        Terrain seed\n"
    ++ "      --flat               Flat terrain instead of noise\n"
    ++ "      --watch              Take over changes of the configuration file\n"
    ++ "  -v, --verbose            Log more\n"
    ++ "  -h, --help               Print help\n"
    ++ "  -V, --version            Print version"

def Refusal.message : Refusal → String
  | .unknownArgument argument => s!"unexpected argument '{argument}'"
  | .invalidValue option => s!"a value is required for '--{option}'"
  | .valueValidation option value => s!"invalid value '{value}' for '--{option}'"
  | .argumentConflict option => s!"the argument '--{option}' cannot be used multiple times"
  | .tooManyValues option => s!"unexpected value for '--{option}'"
  | .displayHelp => helpText
  | .displayVersion => versionText

/-- The content of a file, if there is one. -/
def readIfPresent (path : String) : IO (Option ByteArray) := do
  match ← (IO.FS.readBinFile path).toBaseIO with
  | .ok content => return some content
  | .error (.noFileOrDirectory ..) => return none
  | .error cause => throw cause

/-- Writes a file as a whole: a reader finds the earlier content or the new
one. -/
def replaceFile (path : String) (content : ByteArray) : IO Unit := do
  let directory := Path.parent path
  if directory != "" then IO.FS.createDirAll directory
  let fresh := path ++ ".tmp"
  IO.FS.writeBinFile fresh content
  IO.FS.rename fresh path

/-- Prints the log lines of a run so far, and forgets them. -/
def printLog (verbose : Bool) (s : Simulation) : IO Simulation := do
  for entry in s.provider.state.history do
    if let .noted notice := entry then
      let line := notice.line
      if verbose || line.level != .debug then
        IO.eprintln s!"[{line.level.text}] {line.text}"
  return { s with provider := s.provider.modifyState fun st => { st with journal := [] } }

/-- Milliseconds left of a tick. -/
def remaining (tickMillis elapsed : Nat) : UInt32 :=
  UInt32.ofNat (min (tickMillis - elapsed) 4294967295)

/-- Goes through `n` ticks.  `seen` is the configuration file as it was read
last, when it is watched. -/
def runTicks (a : Arguments) (c : Config) : Nat → Option ByteArray → Simulation → IO Simulation
  | 0, _, s => return s
  | n + 1, seen, s => do
      let began ← IO.monoMsNow
      let found ← if a.watch then readIfPresent a.config else pure seen
      let changed := found.map (·.toList) != seen.map (·.toList)
      let s := (s.tick (if changed then Launch.reloaded? found else none)).settle
      let s ← printLog a.verbose s
      IO.sleep (remaining c.tickMillis ((← IO.monoMsNow) - began))
      runTicks a c n found s

/-- Writes what a run leaves behind; a failure is only logged. -/
def saveWorld (s : Simulation) : IO Unit := do
  match s.provider.saved with
  | none => return
  | some content =>
      let path := s.setup.savePath
      match ← (replaceFile path ⟨content.toArray⟩).toBaseIO with
      | .ok () => return
      | .error cause =>
          IO.eprintln (ProviderNotice.saveFailed path (.io (toString cause))).line.text

/-- A run with accepted arguments. -/
def runProgram (a : Arguments) : IO ExitStatus := do
  let file ← readIfPresent a.config
  match Launch.configure a file with
  | .error cause =>
      IO.eprintln s!"Error: {cause.message}"
      return .failure
  | .ok c =>
      let artifact ← readIfPresent c.provider.savePath
      match Launch.simulation a c (artifact.map (·.toList)) with
      | .error cause =>
          IO.eprintln s!"Error: {cause.message}"
          return .failure
      | .ok s =>
          let s ← runTicks a c c.ticks file (← printLog a.verbose s)
          let s := s.finish
          saveWorld s
          let _ ← printLog a.verbose s
          return .success

end ChunkStream

open ChunkStream

def main (args : List String) : IO UInt32 := do
  match CommandLine.parse args with
  | .error refusal =>
      if refusal.status == .success then IO.println refusal.message
      else IO.eprintln s!"error: {refusal.message}"
      return refusal.status.code
  | .ok a =>
      match ← (runProgram a).toBaseIO with
      | .ok status => return status.code
      | .error cause =>
          IO.eprintln s!"Error: {cause}"
          return ExitStatus.code .failure
