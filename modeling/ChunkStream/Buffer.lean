import ChunkStream.Coord

/-!
# Block buffers

The content of a chunk is an array of blocks with three dimensions.  A cell of
the box has a linear index that counts x fastest, then z, then y.  Reading and
writing go through this index and fault, as the arithmetic behind it does, when
the cell has no block.
-/

namespace ChunkStream

structure Block where
  id : UInt16
  state : UInt16
deriving DecidableEq, Repr, Inhabited

namespace Block

def air : Block := ⟨0, 0⟩
def stone : Block := ⟨1, 0⟩
def dirt : Block := ⟨2, 0⟩
def grass : Block := ⟨3, 0⟩
def water : Block := ⟨4, 0⟩
def sand : Block := ⟨5, 0⟩

end Block

/-- A position inside a buffer. -/
structure Cell where
  x : Nat
  y : Nat
  z : Nat
deriving DecidableEq, Repr, Inhabited

/-- The cell one layer higher. -/
def Cell.above (p : Cell) : Cell := { p with y := p.y + 1 }

/-- The dimensions of a buffer. -/
structure Dims where
  x : Nat
  y : Nat
  z : Nat
deriving DecidableEq, Repr, Inhabited

namespace Dims

def cube (n : Nat) : Dims := ⟨n, n, n⟩

/-- Number of blocks in one layer. -/
def layer (d : Dims) : Nat := d.x * d.z

/-- Number of blocks. -/
def volume (d : Dims) : Except Fault Nat := do
  let area ← Size.mul d.x d.y
  Size.mul area d.z

/-- Blocks take four bytes each, and no allocation exceeds this many bytes. -/
def maxBytes : Nat := 9223372036854775807

/-- Number of blocks, provided that many can be allocated. -/
def allocate (d : Dims) : Except Fault Nat := do
  let n ← d.volume
  if 4 * n ≤ maxBytes then return n else throw .capacityOverflow

/-- Linear index of a cell: x fastest, then z, then y. -/
def index (d : Dims) (p : Cell) : Except Fault Nat := do
  let rows ← Size.mul p.y d.z
  let row ← Size.add rows p.z
  let start ← Size.mul row d.x
  Size.add start p.x

/-- The cell with a given linear index. -/
def cell (d : Dims) (i : Nat) : Cell :=
  { x := i % d.x, y := i / d.layer, z := i / d.x % d.z }

end Dims

structure Buffer where
  coord : Coord
  dims : Dims
  blocks : Array Block
deriving DecidableEq, Repr, Inhabited

namespace Buffer

/-- A buffer of air. -/
def air (c : Coord) (d : Dims) : Except Fault Buffer := do
  let n ← d.allocate
  return ⟨c, d, Array.replicate n Block.air⟩

/-- A buffer of the given blocks in linear order, cut or padded with air to the
dimensions. -/
def ofBlocks (c : Coord) (d : Dims) (blocks : Array Block) : Except Fault Buffer := do
  let n ← d.volume
  if n ≤ blocks.size then
    return ⟨c, d, blocks.extract 0 n⟩
  else
    let n ← d.allocate
    return ⟨c, d, blocks ++ Array.replicate (n - blocks.size) Block.air⟩

/-- The block at a linear index. -/
def getIndex (b : Buffer) (i : Nat) : Except Fault Block :=
  match b.blocks[i]? with
  | some block => .ok block
  | none => .error (.indexOutOfBounds b.blocks.size i)

def get (b : Buffer) (p : Cell) : Except Fault Block := do
  let i ← b.dims.index p
  b.getIndex i

/-- The buffer with the block at a linear index replaced, if there is one. -/
def put (b : Buffer) (i : Nat) (block : Block) : Buffer :=
  { b with blocks := b.blocks.setIfInBounds i block }

def set (b : Buffer) (p : Cell) (block : Block) : Except Fault Buffer := do
  let i ← b.dims.index p
  if i < b.blocks.size then return b.put i block
  else throw (.indexOutOfBounds b.blocks.size i)

/-- World position of the block at the lowest corner; each size is taken as a
word, and the axes are checked in the order x, y, z. -/
def base (c : Coord) (d : Dims) : Except Fault Coord := do
  let x ← Word.mul c.x (Size.toWord d.x)
  let y ← Word.mul c.y (Size.toWord d.y)
  let z ← Word.mul c.z (Size.toWord d.z)
  return ⟨x, y, z⟩

def hasNonAir (b : Buffer) : Bool := b.blocks.any (· != Block.air)

end Buffer

end ChunkStream
