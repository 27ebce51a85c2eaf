import ChunkStream.Proofs.Store.Image
import ChunkStream.Proofs.Store.Ledger

/-!
# Saving and loading

A store may be saved with its entries in any order.  Loading the bytes gives
back the entries, whatever their payloads are: payloads are carried as bytes and
are not looked at.  A loaded store has coordinates once and payloads that fit
their length fields, as an empty one has, and writes keep it so; so it can be
saved and loaded again.
-/

namespace ChunkStream

namespace FarStore

variable {s t start : FarStore} {acts : List StoreAct} {bytes : List UInt8}

/-- Bytes that a store can be saved as, with its entries in some order. -/
def SavedAs (s : FarStore) (bytes : List UInt8) : Prop :=
  ∃ entries : Table Coord StoredChunk, entries.Perm s.entries
    ∧ bytes = { s with entries := entries }.save

theorem savedAs_save (s : FarStore) : s.SavedAs s.save :=
  ⟨s.entries, .refl _, rfl⟩

/-- An open store that has taken nothing yet and holds the same tag and the same
payload under each coordinate. -/
structure Reloaded (s t : FarStore) : Prop where
  entries : t.entries.Perm s.entries
  get? : ∀ c, Table.get? t.entries c = Table.get? s.entries c
  puts : t.puts = 0
  opened : t.closed = false

theorem Measured.of_perm (hs : s.Measured) (h : t.entries.Perm s.entries) :
    t.Measured where
  keys := (h.map Prod.fst).nodup_iff.2 hs.keys
  payloads stored hstored :=
    hs.payloads stored ((h.map Prod.snd).mem_iff.1 hstored)

/-- The store with its entries in another order can be saved as well. -/
theorem Measured.exists_save (hs : s.Measured) (hcount : s.count < Size.limit)
    (h : s.SavedAs bytes) : ∃ u : FarStore, u.entries.Perm s.entries
      ∧ bytes = u.save ∧ u.Measured ∧ u.count < Size.limit := by
  obtain ⟨entries, hperm, hbytes⟩ := h
  refine ⟨{ s with entries := entries }, hperm, hbytes, hs.of_perm hperm, ?_⟩
  rw [count, hperm.length_eq]
  exact hcount

theorem Measured.load_savedAs (hs : s.Measured) (hcount : s.count < Size.limit)
    (h : s.SavedAs bytes) : ∃ t, load bytes = .ok t ∧ Reloaded s t := by
  obtain ⟨u, hperm, rfl, hmeasured, hfits⟩ := hs.exists_save hcount h
  obtain ⟨t, hload, hentries, hputs, hopen⟩ := load_save hmeasured hfits
  have hsame : t.entries.Perm s.entries := hentries ▸ hperm
  exact ⟨t, hload, hsame, Table.get?_of_perm hsame hs.keys, hputs, hopen⟩

theorem Reloaded.trans {u : FarStore} (h : Reloaded s t) (h' : Reloaded t u) :
    Reloaded s u where
  entries := h'.entries.trans h.entries
  get? c := (h'.get? c).trans (h.get? c)
  puts := h'.puts
  opened := h'.opened

/-! ## Stores that can be saved -/

theorem measured_ofRecords {records : List Record}
    (h : ∀ r ∈ records, r.stored.payload.length < Size.limit) :
    (ofRecords records).Measured where
  keys := Table.nodup_keys_foldl_insert Record.coord Record.stored records
  payloads stored hstored := by
    obtain ⟨r, hr, rfl⟩ := Table.mem_values_foldl_insert hstored
    exact h r hr

theorem measured_of_load (h : load bytes = .ok s) : s.Measured := by
  cases hdecode : Artifact.decode bytes with
  | none =>
    simp only [load, hdecode] at h
    cases h
  | some a =>
    rw [load_of_decode hdecode] at h
    split at h
    · cases h
      obtain ⟨p, hp, -⟩ := Artifact.exists_image_of_decode hdecode
      exact measured_ofRecords hp.encode_eq.2.payloads
    · cases h

theorem Measured.run (hstart : start.Measured)
    (hacts : ∀ a ∈ acts, ∀ b, a.content? = some b → b.Allocated) :
    (start.run acts).2.Measured := by
  refine run_preserve hstart (fun t ht => ⟨ht.keys, ht.payloads⟩) ?_
  intro chunk b t u hput ht htook
  exact htook.measured ht (hacts _ hput b htook.content)

/-- Loading undoes saving, for a store with any history and for its entries in
any order, and what was loaded can be saved and loaded again. -/
theorem load_undoes_save
    (hstart : start = empty ∨ ∃ bytes, load bytes = .ok start)
    (hacts : ∀ a ∈ acts, ∀ b, a.content? = some b → b.Allocated)
    (hcount : (start.run acts).2.count < Size.limit) :
    (start.run acts).2.SavedAs (start.run acts).2.save
      ∧ ∀ bytes, (start.run acts).2.SavedAs bytes →
        ∃ t, load bytes = .ok t ∧ Reloaded (start.run acts).2 t
          ∧ ∀ bytes', t.SavedAs bytes' →
            ∃ u, load bytes' = .ok u ∧ Reloaded (start.run acts).2 u := by
  have hmeasured : start.Measured := by
    rcases hstart with rfl | ⟨bytes, hload⟩
    · exact measured_empty
    · exact measured_of_load hload
  have hrun := hmeasured.run hacts
  refine ⟨savedAs_save _, fun bytes hbytes => ?_⟩
  obtain ⟨t, hload, ht⟩ := hrun.load_savedAs hcount hbytes
  refine ⟨t, hload, ht, fun bytes' hbytes' => ?_⟩
  have hcount' : t.count < Size.limit := by
    rw [count, ht.entries.length_eq]
    exact hcount
  obtain ⟨u, hload', hu⟩ :=
    (hrun.of_perm ht.entries).load_savedAs hcount' hbytes'
  exact ⟨u, hload', ht.trans hu⟩

/-- The put of a chunk of one block writes what a machine can hold. -/
theorem allocated_of_single (c : Coord) :
    ∀ a ∈ [StoreAct.put (.ofBuffer ⟨c, .cube 1, #[.dirt]⟩ .complete), .close],
      ∀ b, a.content? = some b → b.Allocated := by
  have hblock : 4 * 1 ≤ Dims.maxBytes := by decide
  intro a ha b hb
  simp only [List.mem_cons, List.not_mem_nil, or_false] at ha
  rcases ha with rfl | rfl <;> cases hb
  exact hblock

/-- An artifact of one record with a payload that nothing can be read from. -/
def damaged : Artifact := ⟨1, [⟨.origin, ⟨.complete, [7]⟩⟩]⟩

/-- The damaged artifact is loaded, a chunk is put beside its record and the
store is closed.  The record outlives that, saving and loading. -/
theorem load_undoes_save_of_damaged :
    let s := ((ofRecords damaged.records).run
      [.put (.ofBuffer ⟨⟨1, 0, 0⟩, .cube 1, #[.dirt]⟩ .complete), .close]).2
    s.closed = true ∧ s.get .origin
        = .error (.decompress "expected another byte, found none")
      ∧ ∃ t, load s.save = .ok t ∧ t.closed = false ∧ t.puts = 0
        ∧ Table.get? t.entries .origin = some ⟨.complete, [7]⟩ := by
  intro s
  have hload : load damaged.encode = .ok (ofRecords damaged.records) := by rfl
  have hcount : s.count < Size.limit := show 2 < Size.limit by decide
  obtain ⟨hsave, hall⟩ := load_undoes_save (.inr ⟨_, hload⟩)
    (allocated_of_single ⟨1, 0, 0⟩) hcount
  obtain ⟨t, ht, hsame, -⟩ := hall s.save hsave
  exact ⟨rfl, rfl, t, ht, hsame.opened, hsame.puts, hsame.get? .origin⟩

end FarStore

end ChunkStream
