import ChunkStream.Store.Payload
import ChunkStream.Table

/-!
# The far store

Chunks that left memory are kept as payloads under their coordinates.  The
store counts the bytes it holds, in a 64-bit word, and the writes it accepted;
once closed it refuses writes and still answers reads.
-/

namespace ChunkStream

/-- What the store keeps of a chunk. -/
structure StoredChunk where
  completion : Completion
  payload : List UInt8
deriving DecidableEq, Repr

namespace StoredChunk

/-- A fresh chunk; its coordinate is the one inside the payload. -/
def decode (s : StoredChunk) : Except StoreError Chunk := do
  let b ← Payload.decode s.payload
  return Chunk.ofBuffer b s.completion

end StoredChunk

structure FarStore where
  entries : Table Coord StoredChunk
  bytes : UInt64
  puts : Nat
  closed : Bool
deriving DecidableEq, Repr

namespace FarStore

def empty : FarStore := ⟨[], 0, 0, false⟩

def contains (s : FarStore) (c : Coord) : Bool := Table.contains s.entries c

/-- The chunk stored under a coordinate. -/
def get (s : FarStore) (c : Coord) : Except StoreError (Option Chunk) :=
  match Table.get? s.entries c with
  | none => .ok none
  | some stored => some <$> stored.decode

/-- Stores a copy of a chunk under the chunk's own coordinate. -/
def put (s : FarStore) (c : Chunk) : Except StoreError FarStore :=
  if s.closed then .error .closed
  else
    match c.content with
    | none => .error (.released c.coord)
    | some b =>
        let stored : StoredChunk := ⟨c.completion, Payload.encode b⟩
        let removed := (Table.get? s.entries c.coord).elim 0 (·.payload.length)
        .ok
          { s with
            entries := Table.insert s.entries c.coord stored
            bytes := s.bytes + UInt64.ofNat stored.payload.length - UInt64.ofNat removed
            puts := s.puts + 1 }

def close (s : FarStore) : FarStore := { s with closed := true }

def count (s : FarStore) : Nat := s.entries.length

def coords (s : FarStore) : List Coord := Table.keys s.entries

/-- Occupancy in MiB. -/
def size (s : FarStore) : Float32 := s.bytes.toFloat32 / (1024.0 * 1024.0)

end FarStore

end ChunkStream
