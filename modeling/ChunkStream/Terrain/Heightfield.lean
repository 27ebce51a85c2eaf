import ChunkStream.Single
import ChunkStream.Terrain.Generator
import ChunkStream.Terrain.Simplex

/-!
# Heightfield terrain

Every world column has a surface height.  Below it lie stone and a few layers
of dirt, on it grass, and above it water up to sea level.  Chunks come out
incomplete; finishing lays sand on the grass that lies under water in the same
chunk.  The height function is a parameter of everything but `generator`, which
takes it from noise.
-/

namespace ChunkStream

/-- The parameters of heightfield terrain. -/
structure TerrainParams where
  seed : Int32 := 1337
  chunkSize : Nat := 32
  frequency : Single := Single.ofFloat32 0.02
  minHeight : Int32 := 4
  maxHeight : Int32 := 28
  seaLevel : Int32 := 10
  dirtDepth : Int32 := 3
deriving BEq, Repr, Inhabited

namespace Heightfield

/-- Surface heights by world column. -/
abbrev HeightMap := Int32 → Int32 → Except Fault Int32

/-- The value clamped to the unit interval; a value that is no number stays. -/
def clampUnit (t : Float32) : Float32 :=
  if t < 0.0 then 0.0 else if t > 1.0 then 1.0 else t

/-- Noise scaled to the range between the two heights and rounded, halves away
from zero. -/
def noiseHeight (p : TerrainParams) : HeightMap := fun x z => do
  let n ← Simplex.noise p.seed p.frequency.value x.toFloat32 z.toFloat32
  let t := clampUnit (n * 0.5 + 0.5)
  let range ← Word.sub p.maxHeight p.minHeight
  Word.add p.minHeight (range.toFloat32 * t).round.toInt32

/-- The block at a world height in a column with surface height `surface`. -/
def stratum (p : TerrainParams) (surface height : Int) : Block :=
  if height < surface - p.dirtDepth.toInt then Block.stone
  else if height < surface then Block.dirt
  else if height = surface then Block.grass
  else if height ≤ p.seaLevel.toInt then Block.water
  else Block.air

/-- Surface height of a column of a chunk.  The depth at which stone begins and
the height of the highest layer must be words too. -/
def surface (heights : HeightMap) (p : TerrainParams) (base : Coord) (x z : Nat) :
    Except Fault Int32 := do
  let wx ← Word.add base.x (Size.toWord x)
  let wz ← Word.add base.z (Size.toWord z)
  let h ← heights wx wz
  let _ ← Word.sub h p.dirtDepth
  let _ ← Word.add base.y (Size.toWord (p.chunkSize - 1))
  return h

/-- Surface heights of a chunk's columns, x fastest. -/
def surfaces (heights : HeightMap) (p : TerrainParams) (base : Coord) :
    Except Fault (List Int32) :=
  (List.range (p.chunkSize * p.chunkSize)).mapM fun k =>
    surface heights p base (k % p.chunkSize) (k / p.chunkSize)

/-- The content of a chunk, from the heights of its columns. -/
def content (heights : HeightMap) (p : TerrainParams) (c : Coord) : Except Fault Buffer := do
  let d := Dims.cube p.chunkSize
  let n ← d.allocate
  let base ← Buffer.base c d
  let columns := (← surfaces heights p base).toArray
  let blocks := Array.ofFn fun i : Fin n =>
    stratum p (columns.getD (i.val % d.layer) 0).toInt (base.y.toInt + i.val / d.layer)
  return ⟨c, d, blocks⟩

def generate (heights : HeightMap) (p : TerrainParams) (c : Coord) :
    Except (Failure GenerateError) Chunk := do
  if p.chunkSize = 0 then throw (.error (.failed c "chunk_size must be non-zero"))
  let b ← orFault (content heights p c)
  return Chunk.ofBuffer b .incomplete

/-- The cell holds grass and the cell above it water. -/
def isSubmerged (b : Buffer) (p : Cell) : Except Fault Bool := do
  let here ← b.get p
  if here ≠ Block.grass then return false
  let above ← b.get p.above
  return above == Block.water

/-- Lays sand on the submerged grass among `n` cells from a linear index on.
The pass ends early at a cell that has no block. -/
def layFrom : Nat → Nat → Buffer → Buffer × Except Fault Unit
  | 0, _, b => (b, .ok ())
  | n + 1, i, b =>
      match isSubmerged b (b.dims.cell i) with
      | .error cause => (b, .error cause)
      | .ok true => layFrom n (i + 1) (b.put i Block.sand)
      | .ok false => layFrom n (i + 1) b

/-- Lays sand in all layers but the highest. -/
def laySand (b : Buffer) : Buffer × Except Fault Unit :=
  layFrom (b.dims.layer * (b.dims.y - 1)) 0 b

def finish (c : Chunk) : Chunk × Except (Failure GenerateError) Completion :=
  match c.content with
  | none => (c, .error (.error (.released c.coord)))
  | some b =>
      let (b, outcome) := laySand b
      ({ c with content := some b },
        match outcome with
        | .ok () => .ok .complete
        | .error cause => .error (.fault cause))

/-- Heightfield terrain over an arbitrary height function. -/
def ofHeights (heights : HeightMap) (p : TerrainParams) : Generator where
  generate := generate heights p
  finish := finish

/-- Heightfield terrain over noise. -/
def generator (p : TerrainParams) : Generator := ofHeights (noiseHeight p) p

end Heightfield

end ChunkStream
