import ChunkStream.Simulation

/-!
# Launching a run

What becomes of the arguments, the bytes of a configuration file and the
artifact of an earlier run: a simulation before its first tick, or the reason
why there is none.  Reading and writing files is left to the caller.
-/

namespace ChunkStream

/-- How the program ends. -/
inductive ExitStatus
  | success
  | failure
  | misuse
deriving DecidableEq, Repr

def ExitStatus.code : ExitStatus → UInt32
  | .success => 0
  | .failure => 1
  | .misuse => 2

/-- Asking for help or for the version is no misuse. -/
def Refusal.status : Refusal → ExitStatus
  | .displayHelp => .success
  | .displayVersion => .success
  | _ => .misuse

/-- Why a run does not begin, once its arguments are accepted. -/
inductive LaunchError
  | config (cause : ConfigError)
  | store (cause : StoreError)
  | pipeline (cause : PipelineError)
deriving DecidableEq, Repr

def LaunchError.message : LaunchError → String
  | .config cause => cause.message
  | .store cause => cause.message
  | .pipeline cause => cause.message

namespace Launch

/-- The configuration in a file, or the default one when there is no file,
overridden by the arguments. -/
def configure (a : Arguments) (file : Option ByteArray) : Except LaunchError Config :=
  match file with
  | none => .ok (a.apply {})
  | some bytes =>
      match Config.ofBytes bytes with
      | .error cause => .error (.config cause)
      | .ok c => .ok (a.apply c)

/-- The far store to begin with: that of an earlier run, or an empty one. -/
def farStore (artifact : Option (List UInt8)) : Except LaunchError FarStore :=
  match artifact with
  | none => .ok .empty
  | some bytes => (FarStore.load bytes).mapError .store

/-- The run before its first tick. -/
def simulation (a : Arguments) (c : Config) (artifact : Option (List UInt8)) :
    Except LaunchError Simulation := do
  let far ← farStore artifact
  (Simulation.start c a.flat far).mapError .pipeline

/-- The configuration in a file that changed during a run.  One that is refused
changes nothing. -/
def reloaded? (file : Option ByteArray) : Option Config :=
  match file with
  | none => none
  | some bytes => (Config.ofBytes bytes).toOption

end Launch

end ChunkStream
