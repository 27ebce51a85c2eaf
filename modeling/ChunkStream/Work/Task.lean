import ChunkStream.Store.Error
import ChunkStream.Terrain.Generator

/-!
# Tasks

A task is one unit of work at a coordinate: to load a chunk, to generate one,
or to look again at a resident one.
-/

namespace ChunkStream

inductive Task
  | load (coord : Coord)
  | generate (coord : Coord)
  | review (coord : Coord)
deriving DecidableEq, Repr

namespace Task

def coord : Task → Coord
  | load c => c
  | generate c => c
  | review c => c

def isReview : Task → Bool
  | review _ => true
  | _ => false

/-- The task as in diagnostics. -/
def debugText : Task → String
  | load c => s!"Load({c.debugText})"
  | generate c => s!"Generate({c.debugText})"
  | review c => s!"Review({c.debugText})"

end Task

/-- Why a task failed. -/
inductive TaskError
  | generate (cause : GenerateError)
  | store (cause : StoreError)
  | missing (coord : Coord)
  | cancelled
deriving DecidableEq, Repr

def TaskError.message : TaskError → String
  | .generate cause => cause.message
  | .store cause => cause.message
  | .missing coord => s!"far store lost chunk {coord.text} before it could be loaded"
  | .cancelled => "task cancelled"

end ChunkStream
