import ChunkStream.Store.Artifact

/-!
# Histories of a far store

What can be asked of a store, call by call, and what it answers.  A write that
is refused leaves the store as it was; reads and saving leave it alone.
-/

namespace ChunkStream

/-- What can be asked of a store. -/
inductive StoreAct
  | put (chunk : Chunk)
  | get (c : Coord)
  | contains (c : Coord)
  | count
  | coords
  | puts
  | save
  | close
deriving DecidableEq, Repr

/-- The content that an act hands to the store. -/
def StoreAct.content? : StoreAct → Option Buffer
  | put chunk => chunk.content
  | _ => none

/-- What a store answers. -/
inductive StoreReply
  | taken (chunk : Chunk)
  | refused (chunk : Chunk) (why : StoreError)
  | read (found : Except StoreError (Option Chunk))
  | present (yes : Bool)
  | counted (n : Nat)
  | listed (coords : List Coord)
  | saved (bytes : List UInt8)
  | closed

/-- The chunk that the store took. -/
def StoreReply.taken? : StoreReply → Option Chunk
  | taken chunk => some chunk
  | _ => none

namespace FarStore

def act (s : FarStore) : StoreAct → StoreReply × FarStore
  | .put chunk =>
      match s.put chunk with
      | .ok next => (.taken chunk, next)
      | .error why => (.refused chunk why, s)
  | .get c => (.read (s.get c), s)
  | .contains c => (.present (s.contains c), s)
  | .count => (.counted s.count, s)
  | .coords => (.listed s.coords, s)
  | .puts => (.counted s.puts, s)
  | .save => (.saved s.save, s)
  | .close => (.closed, s.close)

/-- The answers to some acts, in order, and the store after them. -/
def run (acts : List StoreAct) (s : FarStore) : List StoreReply × FarStore :=
  acts.foldl (fun (replies, s) a => (replies ++ [(s.act a).1], (s.act a).2)) ([], s)

/-- The chunks that a store takes in the course of some acts, in order. -/
def taken (acts : List StoreAct) (s : FarStore) : List Chunk :=
  (s.run acts).1.filterMap StoreReply.taken?

end FarStore

end ChunkStream
