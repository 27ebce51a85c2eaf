import ChunkStream.Buffer

/-!
# Chunks

A chunk is a coordinate, a completion tag, an advisory lock and its content.
The content can be released; coordinate and tag survive that.  The lock guards
nothing by itself: whoever holds it asks the others to leave the chunk where it
is.
-/

namespace ChunkStream

inductive Completion
  | incomplete
  | complete
deriving DecidableEq, Repr, Inhabited

/-- The name of a tag as it is shown. -/
def Completion.text : Completion → String
  | .incomplete => "Incomplete"
  | .complete => "Complete"

structure Chunk where
  coord : Coord
  completion : Completion
  locked : Bool
  content : Option Buffer
deriving DecidableEq, Repr, Inhabited

namespace Chunk

/-- A fresh, unlocked chunk at the buffer's coordinate. -/
def ofBuffer (b : Buffer) (s : Completion) : Chunk := ⟨b.coord, s, false, some b⟩

def isComplete (c : Chunk) : Bool := c.completion == .complete

def isReleased (c : Chunk) : Bool := c.content.isNone

/-- The chunk without its content. -/
def release (c : Chunk) : Chunk := { c with content := none }

def setCompletion (c : Chunk) (s : Completion) : Chunk := { c with completion := s }

def lock (c : Chunk) : Chunk := { c with locked := true }

def unlock (c : Chunk) : Chunk := { c with locked := false }

/-- The block at a cell; nothing once the content is released. -/
def get (c : Chunk) (p : Cell) : Except Fault (Option Block) :=
  match c.content with
  | none => .ok none
  | some b => some <$> b.get p

/-- The chunk with a block replaced; nothing once the content is released. -/
def set (c : Chunk) (p : Cell) (block : Block) : Except Fault (Option Chunk) :=
  match c.content with
  | none => .ok none
  | some b => do
      let b ← b.set p block
      return some { c with content := some b }

/-- The chunk with its fields named, as in diagnostics. -/
def debugText (c : Chunk) : String :=
  s!"Chunk \x7b coord: {c.coord.debugText}, state: {c.completion.text}, locked: {c.locked}, "
    ++ s!"disposed: {c.isReleased} \x7d"

end Chunk

end ChunkStream
