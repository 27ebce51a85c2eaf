import ChunkStream.Terrain.Generator

/-!
# Flat terrain

Stone from world height zero up to a thickness, air above and below.
-/

namespace ChunkStream

structure Flat where
  size : Nat := 32
  thickness : Int32 := 1
  completion : Completion := .complete
deriving DecidableEq, Repr, Inhabited

namespace Flat

/-- The block at a world height. -/
def blockAt (f : Flat) (height : Int) : Block :=
  if 0 ≤ height ∧ height < f.thickness.toInt then Block.stone else Block.air

/-- The layers must all have a height: the base is checked on every axis, then
the highest layer. -/
def generate (f : Flat) (c : Coord) : Except Fault Chunk := do
  let d := Dims.cube f.size
  let n ← d.allocate
  let base ← Buffer.base c d
  if f.size ≠ 0 then
    let _ ← Word.add base.y (Size.toWord (f.size - 1))
  let blocks := Array.ofFn fun i : Fin n => f.blockAt (base.y.toInt + (d.cell i).y)
  return Chunk.ofBuffer ⟨c, d, blocks⟩ f.completion

def generator (f : Flat) : Generator where
  generate c := orFault (f.generate c)
  finish := Generator.finishAtOnce

end Flat

end ChunkStream
