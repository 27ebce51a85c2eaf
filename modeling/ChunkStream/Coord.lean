import ChunkStream.Word

/-!
# Chunk coordinates

The world is cut into chunks, and a coordinate names one of them.  Distance
between coordinates is the Manhattan distance over the integers, capped at the
greatest word, so it never overflows.
-/

namespace ChunkStream

structure Coord where
  x : Int32
  y : Int32
  z : Int32
deriving DecidableEq, Repr, Inhabited, Hashable

namespace Coord

def origin : Coord := ⟨0, 0, 0⟩

/-- The coordinate moved by a step on each axis; the axes are checked in the
order x, y, z. -/
def offset (c : Coord) (dx dy dz : Int32) : Except Fault Coord := do
  let x ← Word.add c.x dx
  let y ← Word.add c.y dy
  let z ← Word.add c.z dz
  return ⟨x, y, z⟩

/-- Exact Manhattan distance. -/
def manhattan (a b : Coord) : Nat :=
  (a.x.toInt - b.x.toInt).natAbs + (a.y.toInt - b.y.toInt).natAbs
    + (a.z.toInt - b.z.toInt).natAbs

/-- Manhattan distance, capped at the greatest word. -/
def distance (a b : Coord) : Nat := min (manhattan a b) 2147483647

/-- Lexicographic order by x, then y, then z. -/
def le (a b : Coord) : Bool :=
  if a.x ≠ b.x then a.x < b.x
  else if a.y ≠ b.y then a.y < b.y
  else a.z ≤ b.z

/-- The coordinates in lexicographic order. -/
def sorted (cs : List Coord) : List Coord := cs.mergeSort le

/-- The coordinate as it stands in a sentence. -/
def text (c : Coord) : String := s!"({c.x}, {c.y}, {c.z})"

/-- The coordinate with its fields named, as in diagnostics. -/
def debugText (c : Coord) : String :=
  s!"ChunkCoord \x7b cx: {c.x}, cy: {c.y}, cz: {c.z} \x7d"

end Coord

end ChunkStream
