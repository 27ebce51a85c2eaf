import ChunkStream.Table
import ChunkStream.Terrain.Generator

/-!
# Scripted terrain

A generator for trying out what becomes of chunks that fail, or that stay
incomplete.  A script says how each coordinate behaves; its chunks are small
and hold nothing but air.  Coordinates that the script leaves out go to another
generator, if there is one.
-/

namespace ChunkStream

/-- How a coordinate behaves: complete at once, complete once finished, never
complete, or failing or faulting in one of the two stages. -/
inductive Behavior
  | complete
  | incomplete
  | stuck
  | fails
  | faults
  | finishFails
  | finishFaults
deriving DecidableEq, Repr

structure Script where
  behaviors : Table Coord Behavior
  default : Behavior
  others : Option Generator

namespace Script

/-- Edge length of a scripted chunk. -/
def edge : Nat := 2

/-- How a coordinate behaves, or the generator it is left to. -/
def find (s : Script) (c : Coord) : Behavior ⊕ Generator :=
  match Table.get? s.behaviors c, s.others with
  | some b, _ => .inl b
  | none, some g => .inr g
  | none, none => .inl s.default

def generate (s : Script) (c : Coord) : Except (Failure GenerateError) Chunk :=
  match s.find c with
  | .inr g => g.generate c
  | .inl .fails => .error (.error (.failed c "scripted failure"))
  | .inl .faults => .error (.fault (.raised "scripted fault"))
  | .inl b => do
      let content ← orFault (Buffer.air c (Dims.cube edge))
      return Chunk.ofBuffer content (if b = .complete then .complete else .incomplete)

def finish (s : Script) (c : Chunk) : Chunk × Except (Failure GenerateError) Completion :=
  match s.find c.coord with
  | .inr g => g.finish c
  | .inl .stuck => (c, .ok .incomplete)
  | .inl .finishFails => (c, .error (.error (.failed c.coord "scripted finish failure")))
  | .inl .finishFaults => (c, .error (.fault (.raised "scripted fault")))
  | .inl _ => Generator.finishAtOnce c

def generator (s : Script) : Generator := ⟨s.generate, s.finish⟩

end Script

end ChunkStream
