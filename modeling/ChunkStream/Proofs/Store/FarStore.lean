import ChunkStream.Proofs.Keys
import ChunkStream.Proofs.Store.Payload

/-!
# What a store keeps

An open store takes every chunk that has content, and gives back a chunk of the
same tag and content.  It forgets nothing: a coordinate that is stored stays
stored, and only another chunk of the same coordinate takes the place of what is
stored there.
-/

namespace ChunkStream

/-- The chunk is one of the coordinate, and so is its content, for which a
payload has room. -/
structure Chunk.Placed (c : Coord) (chunk : Chunk) : Prop where
  coord : chunk.coord = c
  content : ∀ b, chunk.content = some b → b.coord = c ∧ b.Storable

/-- The chunk has its content, besides being in its place. -/
structure Chunk.Intact (c : Coord) (chunk : Chunk) : Prop
    extends chunk.Placed c where
  unreleased : ∃ b, chunk.content = some b

/-- What counts of a chunk when it is moved: its tag and its content. -/
def Chunk.copy (chunk : Chunk) : Completion × Option Buffer :=
  (chunk.completion, chunk.content)

/-- What a store keeps of a chunk, unless its content has been released. -/
def Chunk.stored? (chunk : Chunk) : Option StoredChunk :=
  chunk.content.map fun b => ⟨chunk.completion, Payload.encode b⟩

theorem Chunk.intact_ofBuffer {b : Buffer} (hb : b.Storable)
    (completion : Completion) :
    (Chunk.ofBuffer b completion).Intact b.coord where
  coord := rfl
  content b' h := by
    cases h
    exact ⟨rfl, hb⟩
  unreleased := ⟨b, rfl⟩

theorem Chunk.Intact.congr {c : Coord} {chunk next : Chunk}
    (h : chunk.Intact c) (hcoord : next.coord = chunk.coord)
    (hcontent : next.content = chunk.content) : next.Intact c where
  coord := hcoord.trans h.coord
  content b hb := h.content b (hcontent.symm.trans hb)
  unreleased := by
    rw [hcontent]
    exact h.unreleased

theorem StoredChunk.decode_eq {stored : StoredChunk} {b : Buffer}
    (hb : b.Storable) (h : stored.payload = Payload.encode b) :
    stored.decode = .ok (Chunk.ofBuffer b stored.completion) := by
  simp only [decode, h, Payload.decode_encode hb]
  rfl

namespace FarStore

/-- What is stored under a coordinate was made of a buffer of that
coordinate. -/
def Filed (s : FarStore) : Prop :=
  ∀ c stored, Table.get? s.entries c = some stored →
    ∃ b : Buffer, b.coord = c ∧ b.Storable
      ∧ stored.payload = Payload.encode b

/-- Coordinates are stored once, and the lengths of payloads are sizes of 64
bits: what any store of a machine has. -/
structure Measured (s : FarStore) : Prop where
  keys : (Table.keys s.entries).Nodup
  payloads : ∀ stored ∈ Table.values s.entries,
    stored.payload.length < Size.limit

theorem filed_empty : empty.Filed := by
  intro c stored h
  cases h

theorem measured_empty : empty.Measured where
  keys := List.nodup_nil
  payloads _ h := absurd h List.not_mem_nil

theorem get_congr {s t : FarStore} {c : Coord}
    (h : Table.get? t.entries c = Table.get? s.entries c) :
    t.get c = s.get c := by
  rw [get, get, h]

/-- An entry that was made of a buffer gives the buffer back. -/
theorem get_of_entry {s : FarStore} {c : Coord} {completion : Completion}
    {b : Buffer} (hb : b.Storable) (h : Table.get? s.entries c
      = some ⟨completion, Payload.encode b⟩) :
    s.get c = .ok (some (Chunk.ofBuffer b completion)) := by
  have hdecode : (StoredChunk.mk completion (Payload.encode b)).decode
      = .ok (Chunk.ofBuffer b completion) := StoredChunk.decode_eq hb rfl
  rw [get, h]
  simp only [hdecode]
  rfl

theorem get_eq_none {s : FarStore} {c : Coord} (h : s.contains c = false) :
    s.get c = .ok none := by
  have hnone : Table.get? s.entries c = none := by
    simpa [contains, Table.contains] using h
  rw [get, hnone]

/-- A stored chunk can be had back, as long as its entry was made of a
buffer. -/
theorem get_of_filed {s : FarStore} {c : Coord} (hs : s.Filed)
    (h : s.contains c = true) :
    ∃ b completion, s.get c = .ok (some (Chunk.ofBuffer b completion))
      ∧ b.coord = c ∧ b.Storable := by
  obtain ⟨⟨completion, payload⟩, hstored⟩ := Option.isSome_iff_exists.1 h
  obtain ⟨b, hcoord, hstorable, hpayload⟩ := hs c _ hstored
  obtain rfl : payload = Payload.encode b := hpayload
  exact ⟨b, completion, get_of_entry hstorable hstored, hcoord, hstorable⟩

/-- The tag and the content that are stored under a coordinate. -/
def copy? (s : FarStore) (c : Coord) : Option (Completion × Option Buffer) :=
  match s.get c with
  | .ok (some chunk) => some chunk.copy
  | _ => none

theorem copy?_of_get {s : FarStore} {c : Coord} {chunk : Chunk}
    (h : s.get c = .ok (some chunk)) : s.copy? c = some chunk.copy := by
  rw [copy?, h]

theorem isSome_copy? {s : FarStore} (hs : s.Filed) (c : Coord) :
    (s.copy? c).isSome = s.contains c := by
  cases h : s.contains c with
  | true =>
    obtain ⟨b, completion, hget, -⟩ := get_of_filed hs h
    rw [copy?_of_get hget]
    rfl
  | false =>
    rw [copy?, get_eq_none h]
    rfl

/-! ## Writes -/

/-- A store took a chunk with the given content. -/
structure Took (chunk : Chunk) (b : Buffer) (s t : FarStore) : Prop where
  opened : s.closed = false
  content : chunk.content = some b
  entries : t.entries = Table.insert s.entries chunk.coord
    ⟨chunk.completion, Payload.encode b⟩
  puts : t.puts = s.puts + 1
  closed : t.closed = false

variable {s t : FarStore} {chunk : Chunk} {b : Buffer}

/-- An open store takes every chunk that has content. -/
theorem exists_took (hopen : s.closed = false) (hb : chunk.content = some b) :
    ∃ t, s.put chunk = .ok t ∧ Took chunk b s t := by
  simp only [put, hopen, Bool.false_eq_true, if_false, hb]
  exact ⟨_, rfl, hopen, hb, rfl, rfl, rfl⟩

theorem put_of_closed (hclosed : s.closed = true) :
    s.put chunk = .error .closed := by
  simp only [put, hclosed, if_true]

/-- It takes no other. -/
theorem took_of_put (h : s.put chunk = .ok t) : ∃ b, Took chunk b s t := by
  cases hclosed : s.closed with
  | true =>
    rw [put_of_closed hclosed] at h
    cases h
  | false =>
    cases hcontent : chunk.content with
    | none =>
      simp only [put, hclosed, Bool.false_eq_true, if_false, hcontent] at h
      cases h
    | some b =>
      obtain ⟨u, hu, htook⟩ := exists_took hclosed hcontent
      rw [h] at hu
      cases hu
      exact ⟨b, htook⟩

theorem put_of_released (hopen : s.closed = false)
    (hcontent : chunk.content = none) :
    s.put chunk = .error (.released chunk.coord) := by
  simp only [put, hopen, Bool.false_eq_true, if_false, hcontent]

namespace Took

theorem get?_entries (h : Took chunk b s t) (c : Coord) :
    Table.get? t.entries c = if chunk.coord = c
      then some ⟨chunk.completion, Payload.encode b⟩
      else Table.get? s.entries c := by
  rw [h.entries, Table.get?_insert]

theorem contains_iff (h : Took chunk b s t) (c : Coord) :
    t.contains c = true ↔ c = chunk.coord ∨ s.contains c = true := by
  unfold FarStore.contains Table.contains
  rw [h.get?_entries]
  by_cases hc : chunk.coord = c
  · simp [hc]
  · simp [hc, Ne.symm hc]

/-- What was taken comes back with the same tag and content. -/
theorem get_self (h : Took chunk b s t) (hb : b.Storable) :
    t.get chunk.coord = .ok (some (Chunk.ofBuffer b chunk.completion)) := by
  apply get_of_entry hb
  rw [h.get?_entries, if_pos rfl]

theorem get_of_ne (h : Took chunk b s t) {c : Coord} (hc : c ≠ chunk.coord) :
    t.get c = s.get c := by
  apply get_congr
  rw [h.get?_entries, if_neg (Ne.symm hc)]

theorem copy?_self (h : Took chunk b s t) (hb : b.Storable) :
    t.copy? chunk.coord = some chunk.copy := by
  rw [copy?_of_get (h.get_self hb), Chunk.copy, Chunk.copy, h.content]
  rfl

theorem copy?_of_ne (h : Took chunk b s t) {c : Coord}
    (hc : c ≠ chunk.coord) : t.copy? c = s.copy? c := by
  rw [copy?, copy?, h.get_of_ne hc]

theorem filed (h : Took chunk b s t) (hs : s.Filed)
    (hchunk : chunk.Placed chunk.coord) : t.Filed := by
  intro c stored hstored
  rw [h.get?_entries] at hstored
  by_cases hc : chunk.coord = c
  · rw [if_pos hc] at hstored
    cases hstored
    obtain ⟨hcoord, hstorable⟩ := hchunk.content b h.content
    exact ⟨b, hcoord.trans hc, hstorable, rfl⟩
  · rw [if_neg hc] at hstored
    exact hs c stored hstored

theorem measured (h : Took chunk b s t) (hs : s.Measured) (hb : b.Allocated) :
    t.Measured where
  keys := by
    rw [h.entries]
    exact Table.nodup_keys_insert hs.keys _ _
  payloads stored hstored := by
    rw [h.entries] at hstored
    rcases Table.mem_values_insert hstored with rfl | hold
    · exact Payload.length_encode_lt hb
    · exact hs.payloads stored hold

end Took

end FarStore

end ChunkStream
