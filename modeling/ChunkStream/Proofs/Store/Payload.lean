import ChunkStream.Proofs.Buffer.Index
import ChunkStream.Proofs.Bytes.Lz4
import ChunkStream.Store.FarStore

/-!
# Payloads read back

A buffer comes back from its payload as it went in.  The fields of the plain
form have fixed widths, so each reader takes exactly what its writer left and
hands on the rest; the compressed form is expanded up to the length written in
front of it.
-/

namespace ChunkStream

open Bytes

/-- What a payload has room for: sizes of 64 bits, and a plain form whose length
fits the four bytes in front of it. -/
structure Buffer.Storable (b : Buffer) : Prop where
  dim_x : b.dims.x < Size.limit
  dim_y : b.dims.y < Size.limit
  dim_z : b.dims.z < Size.limit
  length_plain : (Payload.encodePlain b).length < capacity 4

/-- The blocks fit into one allocation: what any buffer of a machine has. -/
def Buffer.Allocated (b : Buffer) : Prop := 4 * b.blocks.size ≤ Dims.maxBytes

namespace Payload

/-! ## The plain form -/

theorem decodeWord_encodeWord (w : Int32) (rest : List UInt8) :
    decodeWord (encodeWord w ++ rest) = some (w, rest) := by
  have hfits : w.toUInt32.toNat < capacity 4 := UInt32.toNat_lt w.toUInt32
  have hback : Int32.ofNat w.toUInt32.toNat = w := by
    rw [← Int32.toInt_inj, Int32.toInt_ofNat']
    exact (BitVec.toInt_eq_toNat_bmod w.toBitVec).symm
  simp [decodeWord, encodeWord, decodeNat_encodeNat hfits, hback]

theorem decodeCoord_encodeCoord (c : Coord) (rest : List UInt8) :
    decodeCoord (encodeCoord c ++ rest) = some (c, rest) := by
  simp [decodeCoord, encodeCoord, decodeWord_encodeWord]

@[simp]
theorem length_encodeCoord (c : Coord) : (encodeCoord c).length = 12 := by
  simp [encodeCoord, encodeWord]

/-- Two bytes, the lowest first, make up the half word they came from. -/
theorem halfword_eq (w : UInt16) :
    (UInt8.ofNat w.toNat).toUInt16
      + 256 * (UInt8.ofNat (w.toNat / 256)).toUInt16 = w := by
  have hfits := UInt16.toNat_lt w
  rw [← UInt16.toNat_inj]
  simp only [UInt16.toNat_add, UInt16.toNat_mul, UInt8.toNat_toUInt16,
    UInt8.toNat_ofNat', UInt16.reduceToNat]
  omega

theorem decodeBlocks_encodeBlocks (blocks : List Block) (done : Array Block)
    (rest : List UInt8) :
    decodeBlocks blocks.length done (blocks.flatMap encodeBlock ++ rest)
      = some (done ++ blocks, rest) := by
  induction blocks generalizing done with
  | nil => simp [decodeBlocks]
  | cons b blocks ih =>
    simp only [List.length_cons, List.flatMap_cons, encodeBlock, encodeNat,
      List.cons_append, List.nil_append, decodeBlocks, halfword_eq]
    rw [ih]
    simp

theorem length_encodePlain (b : Buffer) :
    (encodePlain b).length = 44 + 4 * b.blocks.size := by
  have hblocks (blocks : List Block) :
      (blocks.flatMap encodeBlock).length = 4 * blocks.length := by
    induction blocks with
    | nil => rfl
    | cons b blocks ih =>
      simp only [List.flatMap_cons, List.length_append, ih, encodeBlock,
        length_encodeNat, List.length_cons]
      omega
  simp only [encodePlain, List.length_append, length_encodeCoord,
    length_encodeNat, hblocks, Array.length_toList]

theorem decodePlain_encodePlain {b : Buffer} (hb : b.Storable) :
    decodePlain (encodePlain b) = some b := by
  have hblocks : b.blocks.size < capacity 8 := by
    have hplain := hb.length_plain
    rw [length_encodePlain] at hplain
    exact Nat.lt_trans (show b.blocks.size < capacity 4 by omega) (by decide)
  have hread := decodeBlocks_encodeBlocks b.blocks.toList #[] []
  rw [List.append_nil, Array.length_toList] at hread
  simp [decodePlain, encodePlain, decodeCoord_encodeCoord,
    decodeNat_encodeNat (show _ < capacity 8 from hb.dim_x),
    decodeNat_encodeNat (show _ < capacity 8 from hb.dim_y),
    decodeNat_encodeNat (show _ < capacity 8 from hb.dim_z),
    decodeNat_encodeNat hblocks, hread]

/-! ## The compressed form -/

/-- The block of a plain form expands to it within the length written in front
of it, and can be written. -/
theorem expand_block (plain : List UInt8) :
    (Lz4.compress plain.toArray).expand plain.length = .ok plain.toArray
      ∧ ∀ s ∈ (Lz4.compress plain.toArray).sequences, s.Printable :=
  Lz4.expand_compress (Nat.le_refl plain.length)

theorem decompress_compress {plain : List UInt8}
    (hplain : plain.length < capacity 4) :
    decompress (compress plain) = .ok plain := by
  obtain ⟨hexpand, hprintable⟩ := expand_block plain
  simp only [decompress, compress, decodeNat_encodeNat hplain,
    Lz4.parse_print hprintable, bind, Except.bind, hexpand]
  rfl

theorem decode_of_decompress {bytes plain : List UInt8} {b : Buffer}
    (hplain : decompress bytes = .ok plain) (hb : decodePlain plain = some b) :
    decode bytes = .ok b := by
  unfold decode
  rw [hplain]
  simp only [hb]

/-- A buffer comes back from its payload. -/
theorem decode_encode {b : Buffer} (hb : b.Storable) :
    decode (encode b) = .ok b :=
  decode_of_decompress (decompress_compress hb.length_plain)
    (decodePlain_encodePlain hb)

/-- The length of a payload fits a size of 64 bits. -/
theorem length_encode_lt {b : Buffer} (hb : b.Allocated) :
    (encode b).length < Size.limit := by
  obtain ⟨hexpand, hprintable⟩ := expand_block (encodePlain b)
  have hprint := Lz4.length_print_le hprintable hexpand
  have hblocks : 4 * b.blocks.size ≤ 9223372036854775807 := hb
  rw [List.size_toArray, length_encodePlain] at hprint
  simp only [encode, compress, List.length_append, length_encodeNat, Size.limit]
  omega

end Payload

namespace Buffer

theorem Storable.allocated {b : Buffer} (hb : b.Storable) : b.Allocated := by
  have hplain : (Payload.encodePlain b).length < 4294967296 := hb.length_plain
  rw [Payload.length_encodePlain] at hplain
  unfold Allocated Dims.maxBytes
  omega

/-- Other blocks take no more room. -/
theorem Storable.congr {b next : Buffer} (hb : b.Storable)
    (h : SameShape b next) : next.Storable := by
  refine ⟨h.dims ▸ hb.dim_x, h.dims ▸ hb.dim_y, h.dims ▸ hb.dim_z, ?_⟩
  rw [Payload.length_encodePlain, h.size, ← Payload.length_encodePlain]
  exact hb.length_plain

end Buffer

end ChunkStream
