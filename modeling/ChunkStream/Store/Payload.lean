import ChunkStream.Bytes.Lz4
import ChunkStream.Chunk
import ChunkStream.Store.Error

/-!
# Payloads

A payload is a buffer as bytes: its plain form, compressed, after the length of
the plain form in four bytes.  The plain form holds the coordinate, the three
dimensions, the number of blocks and the blocks.
-/

namespace ChunkStream.Payload

def encodeCoord (c : Coord) : List UInt8 :=
  Bytes.encodeWord c.x ++ Bytes.encodeWord c.y ++ Bytes.encodeWord c.z

def decodeCoord (bytes : List UInt8) : Option (Coord × List UInt8) := do
  let (x, bytes) ← Bytes.decodeWord bytes
  let (y, bytes) ← Bytes.decodeWord bytes
  let (z, bytes) ← Bytes.decodeWord bytes
  return (⟨x, y, z⟩, bytes)

def encodeBlock (b : Block) : List UInt8 :=
  Bytes.encodeNat 2 b.id.toNat ++ Bytes.encodeNat 2 b.state.toNat

/-- Reads `n` blocks after those in `done`. -/
def decodeBlocks : Nat → Array Block → List UInt8 → Option (Array Block × List UInt8)
  | 0, done, bytes => some (done, bytes)
  | n + 1, done, i₀ :: i₁ :: s₀ :: s₁ :: bytes =>
      decodeBlocks n
        (done.push ⟨i₀.toUInt16 + 256 * i₁.toUInt16, s₀.toUInt16 + 256 * s₁.toUInt16⟩) bytes
  | _ + 1, _, _ => none

/-- The plain form of a buffer. -/
def encodePlain (b : Buffer) : List UInt8 :=
  encodeCoord b.coord ++ Bytes.encodeNat 8 b.dims.x ++ Bytes.encodeNat 8 b.dims.y
    ++ Bytes.encodeNat 8 b.dims.z ++ Bytes.encodeNat 8 b.blocks.size
    ++ b.blocks.toList.flatMap encodeBlock

/-- The buffer a plain form begins with. -/
def decodePlain (bytes : List UInt8) : Option Buffer := do
  let (coord, bytes) ← decodeCoord bytes
  let (x, bytes) ← Bytes.decodeNat 8 bytes
  let (y, bytes) ← Bytes.decodeNat 8 bytes
  let (z, bytes) ← Bytes.decodeNat 8 bytes
  let (n, bytes) ← Bytes.decodeNat 8 bytes
  let (blocks, _) ← decodeBlocks n #[] bytes
  return ⟨coord, ⟨x, y, z⟩, blocks⟩

/-- Compressed bytes after their plain length. -/
def compress (plain : List UInt8) : List UInt8 :=
  Bytes.encodeNat 4 plain.length ++ (Lz4.compress plain.toArray).print

def decompress (bytes : List UInt8) : Except Lz4.DecompressError (List UInt8) :=
  match Bytes.decodeNat 4 bytes with
  | none => .error .missingByte
  | some (limit, bytes) => do
      let text ← (← Lz4.Block.parse bytes).expand limit
      return text.toList

def encode (b : Buffer) : List UInt8 := compress (encodePlain b)

def decode (bytes : List UInt8) : Except StoreError Buffer :=
  match decompress bytes with
  | .error cause => .error (.decompress cause.message)
  | .ok plain =>
      match decodePlain plain with
      | none => .error (.encode "io error: ")
      | some b => .ok b

end ChunkStream.Payload
