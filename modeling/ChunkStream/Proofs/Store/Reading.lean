import ChunkStream.Proofs.Store.Image

/-!
# What can be read from a store

A payload says of itself which coordinate it is for, what the dimensions are and
how many blocks follow, and a store takes it at its word: a chunk that is read
has the coordinate and the blocks of its payload, whatever coordinate it was
asked for under.  What a payload cannot say is anything that another payload
would have no room for, so that a chunk that has been read can be put again.
-/

namespace ChunkStream

open Bytes

/-! ## Payloads -/

namespace Payload

theorem length_of_decodeNat {width n : Nat} {bytes rest : List UInt8}
    (h : decodeNat width bytes = some (n, rest)) :
    n < capacity width ∧ bytes.length = width + rest.length := by
  obtain ⟨field, hfield, rfl⟩ := exists_field_of_decodeNat h
  exact ⟨hfield.lt, by rw [List.length_append, hfield.length]⟩

/-- Each block that is read takes four bytes. -/
theorem length_of_decodeBlocks {n : Nat} {done blocks : Array Block}
    {bytes rest : List UInt8}
    (h : decodeBlocks n done bytes = some (blocks, rest)) :
    blocks.size = done.size + n ∧ bytes.length = 4 * n + rest.length := by
  induction n, done, bytes using decodeBlocks.induct with
  | case1 done bytes =>
    simp only [decodeBlocks, Option.some.injEq, Prod.mk.injEq] at h
    obtain ⟨rfl, rfl⟩ := h
    exact ⟨rfl, (Nat.zero_add _).symm⟩
  | case2 n done i₀ i₁ s₀ s₁ bytes ih =>
    rw [decodeBlocks] at h
    obtain ⟨hsize, hlength⟩ := ih h
    rw [Array.size_push] at hsize
    simp only [List.length_cons]
    omega
  | case3 n done bytes hshort =>
    rw [decodeBlocks] at h
    · cases h
    · exact hshort

/-- Sizes that were read fit their fields, and there was a byte for each that
the plain form takes. -/
theorem room_of_decodePlain {bytes : List UInt8} {b : Buffer}
    (h : decodePlain bytes = some b) :
    b.dims.x < Size.limit ∧ b.dims.y < Size.limit ∧ b.dims.z < Size.limit
      ∧ (encodePlain b).length ≤ bytes.length := by
  obtain ⟨⟨coord, bytes₁⟩, hcoord, h⟩ := Option.bind_eq_some_iff.1 h
  obtain ⟨⟨x, bytes₂⟩, hx, h⟩ := Option.bind_eq_some_iff.1 h
  obtain ⟨⟨y, bytes₃⟩, hy, h⟩ := Option.bind_eq_some_iff.1 h
  obtain ⟨⟨z, bytes₄⟩, hz, h⟩ := Option.bind_eq_some_iff.1 h
  obtain ⟨⟨n, bytes₅⟩, hn, h⟩ := Option.bind_eq_some_iff.1 h
  obtain ⟨⟨blocks, bytes₆⟩, hblocks, h⟩ := Option.bind_eq_some_iff.1 h
  cases h
  obtain ⟨p, hp, rfl⟩ := Coord.exists_image_of_decode hcoord
  have hlength := hp.length
  obtain ⟨hx, hlength₂⟩ := length_of_decodeNat hx
  obtain ⟨hy, hlength₃⟩ := length_of_decodeNat hy
  obtain ⟨hz, hlength₄⟩ := length_of_decodeNat hz
  obtain ⟨-, hlength₅⟩ := length_of_decodeNat hn
  obtain ⟨hsize, hlength₆⟩ := length_of_decodeBlocks hblocks
  have hplain : 44 + 4 * blocks.size ≤ (p ++ bytes₁).length := by
    rw [List.length_append, hsize.trans (Nat.zero_add n)]
    omega
  exact ⟨hx, hy, hz, (length_encodePlain _).symm ▸ hplain⟩

/-- What is expanded has the length that is written in front of it at most. -/
theorem length_of_decompress {bytes plain : List UInt8}
    (h : decompress bytes = .ok plain) : plain.length < capacity 4 := by
  unfold decompress at h
  split at h
  · cases h
  · next limit rest hread =>
    obtain ⟨block, -, h⟩ := exists_of_bind_eq_ok h
    obtain ⟨text, hexpand, h⟩ := exists_of_bind_eq_ok h
    cases h
    rw [Array.length_toList]
    exact Nat.lt_of_le_of_lt (Lz4.size_le_of_expand hexpand)
      (length_of_decodeNat hread).1

/-- What was read from a payload, a payload has room for. -/
theorem storable_of_decode {bytes : List UInt8} {b : Buffer}
    (h : decode bytes = .ok b) : b.Storable := by
  unfold decode at h
  split at h
  · cases h
  · next plain hplain =>
    split at h
    · cases h
    · next b' hread =>
      cases h
      obtain ⟨hx, hy, hz, hlength⟩ := room_of_decodePlain hread
      exact ⟨hx, hy, hz, Nat.lt_of_le_of_lt hlength
        (length_of_decompress hplain)⟩

end Payload

/-! ## Proper chunks -/

/-- The chunk is in its place, and its content has a block for each cell. -/
structure Chunk.Proper (c : Coord) (chunk : Chunk) : Prop
    extends chunk.Placed c where
  full : ∀ b, chunk.content = some b → b.Full

theorem Buffer.Storable.full_iff {b : Buffer} (hb : b.Storable) :
    b.Full ↔ b.blocks.size = b.dims.x * b.dims.y * b.dims.z := by
  refine ⟨Full.blocks, fun hblocks => ⟨hblocks, ?_⟩⟩
  have hplain : (Payload.encodePlain b).length < 4294967296 := hb.length_plain
  rw [Payload.length_encodePlain] at hplain
  unfold Size.limit
  omega

namespace Chunk

variable {c : Coord} {chunk next : Chunk} {b : Buffer}

/-- A fresh chunk is proper when its buffer is. -/
theorem proper_ofBuffer_iff (hb : b.Storable) (completion : Completion) :
    (Chunk.ofBuffer b completion).Proper c ↔ b.coord = c
      ∧ b.blocks.size = b.dims.x * b.dims.y * b.dims.z := by
  constructor
  · intro h
    exact ⟨h.coord, (h.full b rfl).blocks⟩
  · rintro ⟨rfl, hblocks⟩
    refine ⟨(intact_ofBuffer hb completion).toPlaced, ?_⟩
    intro b' hb'
    cases hb'
    exact hb.full_iff.2 hblocks

theorem Proper.congr (h : chunk.Proper c) (hcoord : next.coord = chunk.coord)
    (hcontent : next.content = chunk.content) : next.Proper c where
  coord := hcoord.trans h.coord
  content b hb := h.content b (hcontent.symm.trans hb)
  full b hb := h.full b (hcontent.symm.trans hb)

/-- Releasing a chunk or changing its blocks leaves it proper. -/
theorem Proper.reshape (h : chunk.Proper c) (hcoord : next.coord = chunk.coord)
    (hcontent : ∀ b', next.content = some b' →
      ∃ b, chunk.content = some b ∧ b.SameShape b') : next.Proper c where
  coord := hcoord.trans h.coord
  content b' hb' := by
    obtain ⟨b, hb, hshape⟩ := hcontent b' hb'
    obtain ⟨hplace, hstorable⟩ := h.content b hb
    exact ⟨hshape.coord.trans hplace, hstorable.congr hshape⟩
  full b' hb' := by
    obtain ⟨b, hb, hshape⟩ := hcontent b' hb'
    exact (h.full b hb).congr hshape

end Chunk

/-! ## Stores -/

/-- The last record of each coordinate, as far as it can be read, is for that
coordinate by its payload too, and has a block for each cell. -/
def Artifact.Truthful (a : Artifact) : Prop :=
  ∀ c r b, Table.latest? Record.coord a.records c = some r →
    Payload.decode r.stored.payload = .ok b →
    b.coord = c ∧ b.blocks.size = b.dims.x * b.dims.y * b.dims.z

namespace FarStore

variable {s t : FarStore} {c : Coord} {chunk : Chunk}

/-- Every chunk that can be read from the store is proper. -/
def Proper (s : FarStore) : Prop :=
  ∀ c chunk, s.get c = .ok (some chunk) → chunk.Proper c

/-- A chunk that is read is what the payload says. -/
theorem get_eq_some_iff : s.get c = .ok (some chunk) ↔
    ∃ stored b, Table.get? s.entries c = some stored
      ∧ Payload.decode stored.payload = .ok b
      ∧ chunk = .ofBuffer b stored.completion := by
  cases hentry : Table.get? s.entries c with
  | none => simp [get, hentry]
  | some stored =>
    have hget : s.get c = some <$> stored.decode := by rw [get, hentry]
    rw [hget]
    constructor
    · intro h
      cases hread : stored.decode with
      | error cause =>
        rw [hread] at h
        cases h
      | ok read =>
        rw [hread] at h
        cases h
        obtain ⟨b, hb, hpure⟩ := exists_of_bind_eq_ok hread
        cases hpure
        exact ⟨stored, b, rfl, hb, rfl⟩
    · rintro ⟨_, b, hstored, hb, rfl⟩
      cases hstored
      rw [StoredChunk.decode, hb]
      rfl

/-- What a store gives back is proper exactly when the artifact was truthful. -/
theorem proper_iff_truthful {bytes : List UInt8} {a : Artifact}
    (hdecode : Artifact.decode bytes = some a) (hload : load bytes = .ok s) :
    s.Proper ↔ a.Truthful := by
  have hentry : ∀ c, Table.get? s.entries c
      = (Table.latest? Record.coord a.records c).map Record.stored := by
    rw [eq_ofRecords_of_load hdecode hload]
    exact (restored_ofRecords a.records).entry
  constructor
  · intro hs c r b hr hread
    have hget : s.get c = .ok (some (.ofBuffer b r.stored.completion)) :=
      get_eq_some_iff.2 ⟨r.stored, b, by rw [hentry, hr]; rfl, hread, rfl⟩
    exact (Chunk.proper_ofBuffer_iff (Payload.storable_of_decode hread) _).1
      (hs c _ hget)
  · intro ha c chunk hget
    obtain ⟨stored, b, hstored, hread, rfl⟩ := get_eq_some_iff.1 hget
    rw [hentry] at hstored
    obtain ⟨r, hr, rfl⟩ := Option.map_eq_some_iff.1 hstored
    exact (Chunk.proper_ofBuffer_iff (Payload.storable_of_decode hread) _).2
      (ha c r b hr hread)

/-- A proper chunk keeps a store proper. -/
theorem Proper.put (hs : s.Proper) (hchunk : chunk.Proper c)
    (hput : s.put chunk = .ok t) : t.Proper := by
  obtain ⟨b, htook⟩ := took_of_put hput
  obtain ⟨hcoord, hb⟩ := hchunk.content b htook.content
  intro d read hread
  by_cases hd : d = chunk.coord
  · rw [hd, htook.get_self hb, Except.ok.injEq, Option.some.injEq] at hread
    rw [hd, hchunk.coord, ← hread, Chunk.proper_ofBuffer_iff hb]
    exact ⟨hcoord, (hchunk.full b htook.content).blocks⟩
  · rw [htook.get_of_ne hd] at hread
    exact hs d read hread

end FarStore

end ChunkStream
