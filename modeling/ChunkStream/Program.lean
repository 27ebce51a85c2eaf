import ChunkStream.Launch
import ChunkStream.Store.Files

/-!
# The program on files

A pure account of a whole run of the program: from the arguments and the files
that are there to the exit status and the files that are there afterwards.  A
run reads its configuration, streams chunks to walkers and leaves an artifact.
-/

namespace ChunkStream

/-- A file overwritten while a run is going on, some milliseconds after it
began. -/
structure Overwrite where
  path : String
  afterMillis : Nat
  content : List UInt8

namespace Program

def bytes (content : List UInt8) : ByteArray := ⟨content.toArray⟩

/-- The configuration that a tick takes over.  Ticks begin `tickMillis` apart,
and the first that begins after the overwriting notices it, if the run watches
the file. -/
def changeAt (a : Arguments) (c : Config) (o : Option Overwrite) (tick : Nat) : Option Config :=
  match o with
  | none => none
  | some o =>
      if a.watch ∧ Path.plain a.config = Path.plain o.path
          ∧ tick * c.tickMillis < o.afterMillis + c.tickMillis
          ∧ o.afterMillis ≤ tick * c.tickMillis then
        Launch.reloaded? (some (bytes o.content))
      else none

def overwrite (o : Option Overwrite) (files : Files) : Files :=
  match o with
  | none => files
  | some o => files.write o.path o.content

/-- One run of the program. -/
def run (args : List String) (o : Option Overwrite) (files : Files) : ExitStatus × Files :=
  match CommandLine.parse args with
  | .error refusal => (refusal.status, files)
  | .ok a =>
      match Launch.configure a ((files.read? a.config).map bytes) with
      | .error _ => (.failure, overwrite o files)
      | .ok c =>
          match Launch.simulation a c (files.read? c.provider.savePath) with
          | .error _ => (.failure, overwrite o files)
          | .ok s =>
              let s := (s.runFrom (changeAt a c o) c.ticks 0).finish
              let files := overwrite o files
              match s.provider.saved with
              | none => (.success, files)
              | some content => (.success, files.write c.provider.savePath content)

end Program

end ChunkStream
