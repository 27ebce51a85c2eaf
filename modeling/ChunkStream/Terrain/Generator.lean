import ChunkStream.Chunk

/-!
# Generators

A generator makes the content of a coordinate and, once the neighbourhood of an
incomplete chunk is resident, finishes it.  Both can fail or fault.  Finishing
works in place, so it answers with the chunk as it left it, also when it gave
up half way.
-/

namespace ChunkStream

inductive GenerateError
  | failed (coord : Coord) (reason : String)
  | released (coord : Coord)
deriving DecidableEq, Repr

def GenerateError.message : GenerateError → String
  | .failed coord reason => s!"generation failed at {coord.text}: {reason}"
  | .released coord => s!"chunk {coord.text} was disposed before it could be finished"

structure Generator where
  generate : Coord → Except (Failure GenerateError) Chunk
  finish : Chunk → Chunk × Except (Failure GenerateError) Completion

namespace Generator

/-- Finishing that changes nothing and calls every chunk complete. -/
def finishAtOnce (c : Chunk) : Chunk × Except (Failure GenerateError) Completion :=
  (c, .ok .complete)

end Generator

end ChunkStream
