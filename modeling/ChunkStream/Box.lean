import ChunkStream.Coord

/-!
# Boxes of chunk coordinates

A box holds the coordinates between two corners, both included.  Boxes grow
with saturating arithmetic, so a box at the edge of the world is cut there
instead of faulting.  A box is walked x fastest, then z, then y: `next` is the
successor of a coordinate in that order, and `toList` follows it from the
lowest corner.
-/

namespace ChunkStream

/-- Half-sizes of a box along the axes. -/
structure Extents where
  x : Int32
  y : Int32
  z : Int32
deriving DecidableEq, Repr, Inhabited

namespace Extents

def zero : Extents := ⟨0, 0, 0⟩

/-- The same reach along both horizontal axes and none along the vertical. -/
def horizontal (r : Int32) : Extents := ⟨r, 0, r⟩

/-- What a chunk needs around it before it is ready. -/
def neighborhood : Extents := ⟨1, 0, 1⟩

/-- How far beyond a footprint chunks are produced. -/
def production : Extents := ⟨2, 0, 2⟩

/-- How far beyond a footprint chunks are kept by a sweep. -/
def retention : Extents := ⟨4, 0, 4⟩

end Extents

structure Box where
  min : Coord
  max : Coord
deriving DecidableEq, Repr, Inhabited

namespace Box

/-- The canonical empty box. -/
def empty : Box := ⟨⟨0, 0, 0⟩, ⟨-1, -1, -1⟩⟩

/-- The box of all coordinates within `e` of `c` on each axis; a negative
half-size counts as zero. -/
def around (c : Coord) (e : Extents) : Box :=
  let ex := Max.max e.x 0
  let ey := Max.max e.y 0
  let ez := Max.max e.z 0
  { min := ⟨Word.clampedSub c.x ex, Word.clampedSub c.y ey, Word.clampedSub c.z ez⟩
    max := ⟨Word.clampedAdd c.x ex, Word.clampedAdd c.y ey, Word.clampedAdd c.z ez⟩ }

/-- What an observer at `c` with the given horizontal reach is interested in. -/
def footprint (c : Coord) (distance : UInt32) : Box :=
  around c (.horizontal (Word.nearest distance.toNat))

/-- A chunk together with its horizontal neighbours. -/
def neighborhood (c : Coord) : Box := around c .neighborhood

def isEmpty (b : Box) : Bool :=
  b.min.x > b.max.x || b.min.y > b.max.y || b.min.z > b.max.z

def contains (b : Box) (c : Coord) : Bool :=
  b.min.x ≤ c.x && c.x ≤ b.max.x && b.min.y ≤ c.y && c.y ≤ b.max.y
    && b.min.z ≤ c.z && c.z ≤ b.max.z

/-- The box grown by `e` on both sides of every axis.  An empty box stays
empty. -/
def expand (b : Box) (e : Extents) : Box :=
  if b.isEmpty then empty
  else
    { min := ⟨Word.clampedSub b.min.x e.x, Word.clampedSub b.min.y e.y,
        Word.clampedSub b.min.z e.z⟩
      max := ⟨Word.clampedAdd b.max.x e.x, Word.clampedAdd b.max.y e.y,
        Word.clampedAdd b.max.z e.z⟩ }

/-- Number of words between two words, both included. -/
def span (lo hi : Int32) : Nat := (hi.toInt - lo.toInt + 1).toNat

/-- Number of coordinates in the box, over the naturals. -/
def count (b : Box) : Nat := span b.min.x b.max.x * span b.min.y b.max.y * span b.min.z b.max.z

/-- Number of coordinates in the box as a size. -/
def size (b : Box) : Except Fault Nat := do
  if b.isEmpty then return 0
  let area ← Size.mul (span b.min.x b.max.x) (span b.min.y b.max.y)
  Size.mul area (span b.min.z b.max.z)

/-- The middle of an interval of words, rounded down. -/
def midpoint (lo hi : Int32) : Int32 := Int32.ofInt ((lo.toInt + hi.toInt).fdiv 2)

def center (b : Box) : Coord :=
  ⟨midpoint b.min.x b.max.x, midpoint b.min.y b.max.y, midpoint b.min.z b.max.z⟩

/-- The coordinate a walk of the box starts at. -/
def first (b : Box) : Option Coord := if b.isEmpty then none else some b.min

/-- The coordinate after `c` in a walk of the box. -/
def next (b : Box) (c : Coord) : Option Coord :=
  if c.x < b.max.x then some ⟨c.x + 1, c.y, c.z⟩
  else if c.z < b.max.z then some ⟨b.min.x, c.y, c.z + 1⟩
  else if c.y < b.max.y then some ⟨b.min.x, c.y + 1, b.min.z⟩
  else none

/-- At most `n` coordinates of a walk that has reached `at?`, and where the walk
stands after them. -/
def walk (b : Box) : Nat → Option Coord → List Coord × Option Coord
  | 0, here => ([], here)
  | _ + 1, none => ([], none)
  | n + 1, some c =>
      let (rest, here) := walk b n (b.next c)
      (c :: rest, here)

/-- The coordinates of the box in walking order. -/
def toList (b : Box) : List Coord := (b.walk b.count b.first).1

end Box

end ChunkStream
