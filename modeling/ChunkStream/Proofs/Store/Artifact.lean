import ChunkStream.Proofs.Store.FarStore
import ChunkStream.Store.Artifact

/-!
# Artifacts read back

Loading undoes saving.  Records are read in the order they were written, each
through its own fields, and since a store has every coordinate once, putting the
records one after another into an empty table gives the entries of the store
again.
-/

namespace ChunkStream

open Bytes

namespace Record

theorem decodeCompletion_encodeCompletion (completion : Completion)
    (rest : List UInt8) :
    decodeCompletion (encodeCompletion completion ++ rest)
      = some (completion, rest) := by
  cases completion with
  | incomplete =>
    simp only [decodeCompletion, encodeCompletion,
      decodeNat_encodeNat (show 0 < capacity 4 by decide)]
  | complete =>
    simp only [decodeCompletion, encodeCompletion,
      decodeNat_encodeNat (show 1 < capacity 4 by decide)]

/-- A record reads back, and what follows it is left. -/
theorem decode_encode {r : Record}
    (hr : r.stored.payload.length < Size.limit) (rest : List UInt8) :
    decode (r.encode ++ rest) = some (r, rest) := by
  have hlength : r.stored.payload.length < capacity 8 := hr
  simp only [decode, encode, List.append_assoc, Payload.decodeCoord_encodeCoord,
    decodeCompletion_encodeCompletion, decodeNat_encodeNat hlength,
    Lz4.splitExactly_append, bind, Option.bind, pure]

theorem decodeMany_encode {rs : List Record}
    (hrs : ∀ r ∈ rs, r.stored.payload.length < Size.limit)
    (done : List Record) (rest : List UInt8) :
    decodeMany rs.length done (rs.flatMap encode ++ rest)
      = some (done.reverse ++ rs, rest) := by
  induction rs generalizing done with
  | nil => simp [decodeMany]
  | cons r rs ih =>
    have hfirst := decode_encode (hrs r List.mem_cons_self)
      (rs.flatMap encode ++ rest)
    have hothers := ih (fun q hq => hrs q (List.mem_cons_of_mem r hq))
      (r :: done)
    simp only [List.length_cons, List.flatMap_cons, List.append_assoc,
      decodeMany, hfirst, hothers, List.reverse_cons, List.singleton_append]

end Record

namespace Artifact

/-- The bounds that the fields of an artifact set. -/
structure Encodable (a : Artifact) : Prop where
  version : a.version < capacity 4
  count : a.records.length < Size.limit
  payloads : ∀ r ∈ a.records, r.stored.payload.length < Size.limit

/-- An artifact reads back, whatever follows it. -/
theorem decode_encode {a : Artifact} (ha : a.Encodable) (rest : List UInt8) :
    decode (a.encode ++ rest) = some a := by
  have hlength : a.records.length < capacity 8 := ha.count
  have hread := Record.decodeMany_encode ha.payloads [] rest
  rw [List.reverse_nil, List.nil_append] at hread
  simp only [decode, encode, List.append_assoc, decodeNat_encodeNat ha.version,
    decodeNat_encodeNat hlength, hread, bind, Option.bind, pure]

end Artifact

namespace FarStore

theorem insert_records {rs : List Record} {entries : Table Coord StoredChunk}
    (h : (Table.keys entries ++ rs.map (·.coord)).Nodup) :
    rs.foldl (fun t r => Table.insert t r.coord r.stored) entries
      = entries ++ rs.map fun r => (r.coord, r.stored) := by
  induction rs generalizing entries with
  | nil => simp
  | cons r rs ih =>
    rw [List.map_cons, List.nodup_middle, List.nodup_cons] at h
    have hnew : r.coord ∉ Table.keys entries :=
      fun hmem => h.1 (List.mem_append_left _ hmem)
    have hkeys : Table.keys (entries ++ [(r.coord, r.stored)])
        = Table.keys entries ++ [r.coord] := by
      simp [Table.keys]
    rw [List.foldl_cons, Table.insert_of_not_mem _ hnew, ih]
    · simp
    · rw [hkeys, List.append_assoc, List.singleton_append, List.nodup_middle,
        List.nodup_cons]
      exact h

theorem Measured.encodable {s : FarStore} (hs : s.Measured)
    (hcount : s.count < Size.limit) : s.artifact.Encodable where
  version := show formatVersion < capacity 4 by decide
  count := by
    rw [artifact, List.length_map]
    exact hcount
  payloads r hr := by
    obtain ⟨e, he, rfl⟩ := List.mem_map.1 hr
    exact hs.payloads e.2 (List.mem_map_of_mem he)

theorem Measured.decode_save {s : FarStore} (hs : s.Measured)
    (hcount : s.count < Size.limit) :
    Artifact.decode s.save = some s.artifact := by
  rw [← List.append_nil s.save]
  exact Artifact.decode_encode (hs.encodable hcount) []

/-- Loading what was saved gives the same entries, in an open store. -/
theorem load_save {s : FarStore} (hs : s.Measured)
    (hcount : s.count < Size.limit) :
    ∃ t, load s.save = .ok t ∧ t.entries = s.entries ∧ t.puts = 0
      ∧ t.closed = false := by
  have hdecode := hs.decode_save hcount
  refine ⟨ofRecords s.artifact.records, ?_, ?_, rfl, rfl⟩
  · simp only [load, hdecode]
    exact if_pos rfl
  · have hcoords : s.artifact.records.map (·.coord) = Table.keys s.entries := by
      simp [artifact, Table.keys]
    have hnodup : (Table.keys ([] : Table Coord StoredChunk)
        ++ s.artifact.records.map (·.coord)).Nodup := by
      rw [hcoords]
      exact hs.keys
    calc (ofRecords s.artifact.records).entries
        = [] ++ s.artifact.records.map fun r => (r.coord, r.stored) :=
          insert_records hnodup
      _ = s.entries := by
          rw [List.nil_append, artifact, List.map_map]
          exact List.map_id _

end FarStore

end ChunkStream
