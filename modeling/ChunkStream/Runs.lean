import ChunkStream.Buffer

/-!
# Runs of blocks

Blocks in linear order as runs of equal ones.  Adjacent runs made from blocks
differ, so this form is the shortest; reading takes any runs.
-/

namespace ChunkStream

structure Run where
  block : Block
  length : Nat
deriving DecidableEq, Repr

namespace Run

/-- The blocks that some runs stand for. -/
def toBlocks (runs : List Run) : Array Block :=
  runs.foldl (fun blocks r => blocks ++ Array.replicate r.length r.block) #[]

/-- Puts a block behind runs, which have the latest first. -/
def extend (runs : List Run) (b : Block) : List Run :=
  match runs with
  | [] => [⟨b, 1⟩]
  | r :: rest => if r.block = b then ⟨b, r.length + 1⟩ :: rest else ⟨b, 1⟩ :: r :: rest

def ofBlocks (blocks : Array Block) : List Run := (blocks.foldl extend []).reverse

end Run

end ChunkStream
