import ChunkStream.Store.FarStore

/-!
# The artifact

A store is saved as one sequence of bytes: a version, the number of records and
the records, each a coordinate, a completion tag, the length of a payload and
the payload.  Loading reads the whole image before it looks at the version;
bytes after the image are ignored, and of two records for one coordinate the
later one counts.
-/

namespace ChunkStream

structure Record where
  coord : Coord
  stored : StoredChunk
deriving DecidableEq, Repr

namespace Record

def encodeCompletion : Completion → List UInt8
  | .incomplete => Bytes.encodeNat 4 0
  | .complete => Bytes.encodeNat 4 1

def decodeCompletion (bytes : List UInt8) : Option (Completion × List UInt8) :=
  match Bytes.decodeNat 4 bytes with
  | some (0, bytes) => some (.incomplete, bytes)
  | some (1, bytes) => some (.complete, bytes)
  | _ => none

def encode (r : Record) : List UInt8 :=
  Payload.encodeCoord r.coord ++ encodeCompletion r.stored.completion
    ++ Bytes.encodeNat 8 r.stored.payload.length ++ r.stored.payload

def decode (bytes : List UInt8) : Option (Record × List UInt8) := do
  let (coord, bytes) ← Payload.decodeCoord bytes
  let (completion, bytes) ← decodeCompletion bytes
  let (n, bytes) ← Bytes.decodeNat 8 bytes
  let (payload, bytes) ← Bytes.splitExactly n bytes
  return (⟨coord, ⟨completion, payload⟩⟩, bytes)

/-- Reads `n` records after those in `done`, which has the latest first. -/
def decodeMany : Nat → List Record → List UInt8 → Option (List Record × List UInt8)
  | 0, done, bytes => some (done.reverse, bytes)
  | n + 1, done, bytes =>
      match decode bytes with
      | none => none
      | some (r, bytes) => decodeMany n (r :: done) bytes

end Record

structure Artifact where
  version : Nat
  records : List Record
deriving DecidableEq, Repr

namespace Artifact

def encode (a : Artifact) : List UInt8 :=
  Bytes.encodeNat 4 a.version ++ Bytes.encodeNat 8 a.records.length
    ++ a.records.flatMap Record.encode

/-- The artifact that the bytes begin with. -/
def decode (bytes : List UInt8) : Option Artifact := do
  let (version, bytes) ← Bytes.decodeNat 4 bytes
  let (n, bytes) ← Bytes.decodeNat 8 bytes
  let (records, _) ← Record.decodeMany n [] bytes
  return ⟨version, records⟩

end Artifact

namespace FarStore

/-- The artifact of a store. -/
def artifact (s : FarStore) : Artifact :=
  ⟨formatVersion, s.entries.map fun e => ⟨e.1, e.2⟩⟩

/-- The bytes a store is saved as. -/
def save (s : FarStore) : List UInt8 := s.artifact.encode

/-- Bytes of some payloads together. -/
def payloadBytes : List StoredChunk → Nat
  | [] => 0
  | s :: rest => s.payload.length + payloadBytes rest

/-- An open store that holds the records, the later of two for one coordinate.
Every record counts towards the bytes. -/
def ofRecords (records : List Record) : FarStore where
  entries := records.foldl (fun t r => Table.insert t r.coord r.stored) []
  bytes := UInt64.ofNat (payloadBytes (records.map (·.stored)))
  puts := 0
  closed := false

/-- The store that was saved as the given bytes. -/
def load (bytes : List UInt8) : Except StoreError FarStore :=
  match Artifact.decode bytes with
  | none => .error (.encode "io error: unexpected end of file")
  | some a =>
      if a.version = formatVersion then .ok (ofRecords a.records)
      else .error (.versionMismatch a.version)

end FarStore

end ChunkStream
