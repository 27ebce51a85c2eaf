import ChunkStream.Proofs.Store.Reload

/-!
# What a store counts

A store counts the bytes it holds apart from its entries: a write adds the new
payload and takes off the one it replaces, while loading adds up every record of
an artifact.  A record whose coordinate comes again later is counted and not
kept.  These bytes stay in the counter through any history, and nothing else
ever sets the counter and the entries apart; saving leaves such records behind,
so a store that was saved and loaded again counts exactly.
-/

namespace ChunkStream

/-! ## Shadowed records -/

/-- The records whose coordinate comes again later. -/
def Record.shadowed : List Record → List Record
  | [] => []
  | r :: rs =>
      if r.coord ∈ rs.map Record.coord then r :: shadowed rs else shadowed rs

theorem Record.shadowed_eq_nil {rs : List Record}
    (h : (rs.map Record.coord).Nodup) : shadowed rs = [] := by
  induction rs with
  | nil => rfl
  | cons r rs ih =>
    rw [List.map_cons, List.nodup_cons] at h
    rw [shadowed, if_neg h.1, ih h.2]

namespace FarStore

variable {s t start : FarStore} {records : List Record} {extra : Nat}

/-- Bytes of some records together. -/
def recordBytes (records : List Record) : Nat :=
  payloadBytes (records.map Record.stored)

theorem recordBytes_cons (r : Record) (rs : List Record) :
    recordBytes (r :: rs) = r.stored.payload.length + recordBytes rs := rfl

/-- Bytes of the payloads that a store holds. -/
def heldBytes (s : FarStore) : Nat := payloadBytes (Table.values s.entries)

/-- Bytes of an entry, none where nothing is stored. -/
def bytesAt (entries : Table Coord StoredChunk) (c : Coord) : Nat :=
  (Table.get? entries c).elim 0 (·.payload.length)

theorem payloadBytes_append (xs ys : List StoredChunk) :
    payloadBytes (xs ++ ys) = payloadBytes xs + payloadBytes ys := by
  induction xs with
  | nil => exact (Nat.zero_add _).symm
  | cons x xs ih =>
    rw [List.cons_append, payloadBytes, payloadBytes, ih, Nat.add_assoc]

theorem payloadBytes_perm {xs ys : List StoredChunk} (h : xs.Perm ys) :
    payloadBytes xs = payloadBytes ys := by
  induction h with
  | nil => rfl
  | cons x _ ih => rw [payloadBytes, payloadBytes, ih]
  | swap x y xs =>
    simp only [payloadBytes]
    exact Nat.add_left_comm _ _ _
  | trans _ _ ih ih' => exact ih.trans ih'

/-- What was put in is there in the end, in place of what it replaced. -/
theorem payloadBytes_insert (entries : Table Coord StoredChunk) (c : Coord)
    (stored : StoredChunk) :
    payloadBytes (Table.values (Table.insert entries c stored))
        + bytesAt entries c
      = payloadBytes (Table.values entries) + stored.payload.length := by
  induction entries with
  | nil => exact (Nat.zero_add _).symm
  | cons e rest ih =>
    obtain ⟨key, old⟩ := e
    by_cases hkey : key = c
    · have hat : bytesAt ((key, old) :: rest) c = old.payload.length := by
        rw [bytesAt, Table.get?, if_pos hkey, Option.elim_some]
      rw [Table.insert, if_pos hkey, hat]
      simp only [Table.values, List.map_cons, payloadBytes]
      omega
    · have hat : bytesAt ((key, old) :: rest) c = bytesAt rest c := by
        rw [bytesAt, Table.get?, if_neg hkey, bytesAt]
      rw [Table.insert, if_neg hkey, hat]
      simp only [Table.values, List.map_cons, payloadBytes] at ih ⊢
      omega

theorem bytesAt_le (entries : Table Coord StoredChunk) (c : Coord) :
    bytesAt entries c ≤ payloadBytes (Table.values entries) := by
  have hempty := payloadBytes_insert entries c ⟨.incomplete, []⟩
  rw [List.length_nil] at hempty
  omega

/-- Bytes of the last record of a coordinate. -/
def lastBytes (records : List Record) (c : Coord) : Nat :=
  ((Table.latest? Record.coord records c).map Record.stored).elim 0
    (·.payload.length)

theorem lastBytes_cons (r : Record) (rs : List Record) (c : Coord) :
    lastBytes (r :: rs) c = if c ∈ rs.map Record.coord then lastBytes rs c
      else if r.coord = c then r.stored.payload.length else 0 := by
  have hlatest := Table.latest?_cons Record.coord r rs c
  by_cases hlater : c ∈ rs.map Record.coord
  · rw [if_pos hlater, lastBytes, hlatest, if_pos hlater, lastBytes]
  · rw [if_neg hlater, lastBytes, hlatest, if_neg hlater]
    by_cases hr : r.coord = c
    · rw [if_pos hr, if_pos hr, Option.map_some, Option.elim_some]
    · rw [if_neg hr, if_neg hr, Option.map_none, Option.elim_none]

theorem lastBytes_of_not_mem {rs : List Record} {c : Coord}
    (h : c ∉ rs.map Record.coord) : lastBytes rs c = 0 := by
  rw [← Table.isSome_latest?_iff, Bool.not_eq_true, Option.isSome_eq_false_iff,
    Option.isNone_iff_eq_none] at h
  rw [lastBytes, h, Option.map_none, Option.elim_none]

/-- One more record shadows the last one of its coordinate. -/
theorem recordBytes_shadowed_concat (rs : List Record) (r : Record) :
    recordBytes (Record.shadowed (rs ++ [r]))
      = recordBytes (Record.shadowed rs) + lastBytes rs r.coord := by
  induction rs with
  | nil => rfl
  | cons first rs ih =>
    have hmem : first.coord ∈ (rs ++ [r]).map Record.coord
        ↔ first.coord ∈ rs.map Record.coord ∨ first.coord = r.coord := by
      rw [List.map_append, List.mem_append, List.map_singleton,
        List.mem_singleton]
    rw [List.cons_append, Record.shadowed, Record.shadowed, lastBytes_cons]
    by_cases hlater : first.coord ∈ rs.map Record.coord
    · have hlast : (if r.coord ∈ rs.map Record.coord then lastBytes rs r.coord
          else if first.coord = r.coord then first.stored.payload.length else 0)
          = lastBytes rs r.coord := by
        by_cases hr : r.coord ∈ rs.map Record.coord
        · exact if_pos hr
        · have hne : first.coord ≠ r.coord := fun heq => hr (heq ▸ hlater)
          rw [if_neg hr, if_neg hne, lastBytes_of_not_mem hr]
      rw [if_pos (hmem.2 (.inl hlater)), if_pos hlater, hlast, recordBytes_cons,
        recordBytes_cons, ih, Nat.add_assoc]
    · by_cases heq : first.coord = r.coord
      · have hr : r.coord ∉ rs.map Record.coord := heq ▸ hlater
        rw [if_pos (hmem.2 (.inr heq)), if_neg hlater, if_neg hr, if_pos heq,
          recordBytes_cons, ih, lastBytes_of_not_mem hr]
        exact Nat.add_comm _ _
      · have hnone : first.coord ∉ (rs ++ [r]).map Record.coord := by
          rw [hmem]
          exact not_or.2 ⟨hlater, heq⟩
        rw [if_neg hnone, if_neg hlater, if_neg heq, ih]
        by_cases hr : r.coord ∈ rs.map Record.coord
        · rw [if_pos hr]
        · rw [if_neg hr, lastBytes_of_not_mem hr]

/-- A loaded store holds the records that are not shadowed. -/
theorem heldBytes_ofRecords (records : List Record) :
    (ofRecords records).heldBytes + recordBytes (Record.shadowed records)
      = recordBytes records := by
  induction records using List.reverseRecOn with
  | nil => rfl
  | append_singleton rs r ih =>
    have hinsert := payloadBytes_insert (ofRecords rs).entries r.coord r.stored
    have hat : bytesAt (ofRecords rs).entries r.coord
        = lastBytes rs r.coord := by
      rw [bytesAt, (restored_ofRecords rs).entry, lastBytes]
    have hentries : (ofRecords (rs ++ [r])).entries
        = Table.insert (ofRecords rs).entries r.coord r.stored :=
      List.foldl_concat _ _ _ _
    have hall : recordBytes (rs ++ [r])
        = recordBytes rs + r.stored.payload.length := by
      rw [recordBytes, List.map_append, payloadBytes_append]
      rfl
    rw [heldBytes, hentries, recordBytes_shadowed_concat, ← hat, hall]
    rw [heldBytes] at ih
    omega

/-! ## The counter -/

/-- The counter has the bytes that are held and some more, as a word. -/
def Counts (extra : Nat) (s : FarStore) : Prop :=
  s.bytes = UInt64.ofNat (s.heldBytes + extra)

theorem counts_ofRecords (records : List Record) :
    Counts (recordBytes (Record.shadowed records)) (ofRecords records) := by
  rw [Counts, heldBytes_ofRecords]
  rfl

theorem bytes_of_put {chunk : Chunk} {b : Buffer}
    (hcontent : chunk.content = some b) (hput : s.put chunk = .ok t) :
    t.bytes = s.bytes + UInt64.ofNat (Payload.encode b).length
      - UInt64.ofNat (bytesAt s.entries chunk.coord) := by
  obtain ⟨b', htook⟩ := took_of_put hput
  simp only [put, htook.opened, hcontent, Bool.false_eq_true, if_false,
    Except.ok.injEq] at hput
  rw [← hput]
  rfl

/-- A write moves the counter by as much as what is held. -/
theorem Counts.put {chunk : Chunk} (hs : Counts extra s)
    (hput : s.put chunk = .ok t) : Counts extra t := by
  obtain ⟨b, htook⟩ := took_of_put hput
  have hheld : t.heldBytes + bytesAt s.entries chunk.coord
      = s.heldBytes + (Payload.encode b).length := by
    rw [heldBytes, htook.entries]
    exact payloadBytes_insert _ _ _
  calc t.bytes
      = UInt64.ofNat (s.heldBytes + extra)
          + UInt64.ofNat (Payload.encode b).length
          - UInt64.ofNat (bytesAt s.entries chunk.coord) := by
        rw [bytes_of_put htook.content hput, hs]
    _ = UInt64.ofNat (t.heldBytes + extra + bytesAt s.entries chunk.coord)
          - UInt64.ofNat (bytesAt s.entries chunk.coord) := by
        rw [← UInt64.ofNat_add, Nat.add_right_comm, ← hheld,
          Nat.add_right_comm]
    _ = UInt64.ofNat (t.heldBytes + extra) := by
        rw [UInt64.ofNat_add, UInt64.add_sub_cancel]

theorem Counts.act (hs : Counts extra s) (a : StoreAct) :
    Counts extra (s.act a).2 := by
  cases a with
  | put chunk =>
    cases hput : s.put chunk with
    | error why =>
      rw [act_of_error hput]
      exact hs
    | ok t =>
      simp only [FarStore.act, hput]
      exact hs.put hput
  | _ => exact hs

theorem Counts.run (hs : Counts extra s) (acts : List StoreAct) :
    Counts extra (s.run acts).2 := by
  induction acts using List.reverseRecOn with
  | nil => exact hs
  | append_singleton acts a ih =>
    rw [run_concat]
    exact ih.act a

theorem Counts.toNat_bytes (hs : Counts extra s)
    (hfits : s.heldBytes + extra < Size.limit) :
    s.bytes.toNat = s.heldBytes + extra := by
  rw [hs]
  exact UInt64.toNat_ofNat_of_lt' hfits

/-! ## Saving and loading -/

/-- The store is empty, or it was loaded from an artifact of the records. -/
def LoadedFrom (records : List Record) (start : FarStore) : Prop :=
  (start = empty ∧ records = [])
    ∨ ∃ bytes version, Artifact.decode bytes = some ⟨version, records⟩
      ∧ load bytes = .ok start

theorem LoadedFrom.counts (h : LoadedFrom records start) :
    Counts (recordBytes (Record.shadowed records)) start := by
  rcases h with ⟨rfl, rfl⟩ | ⟨bytes, version, hdecode, hload⟩
  · rfl
  · rw [eq_ofRecords_of_load hdecode hload]
    exact counts_ofRecords records

theorem LoadedFrom.measured (h : LoadedFrom records start) :
    start.Measured := by
  rcases h with ⟨rfl, -⟩ | ⟨bytes, version, -, hload⟩
  · exact measured_empty
  · exact measured_of_load hload

/-- Nothing of what was saved is shadowed, whatever the order. -/
theorem Measured.counts_load {bytes : List UInt8} (hs : s.Measured)
    (hcount : s.count < Size.limit) (h : s.SavedAs bytes)
    (hload : load bytes = .ok t) : Counts 0 t := by
  obtain ⟨u, -, rfl, hmeasured, hfits⟩ := hs.exists_save hcount h
  have hcoords : u.artifact.records.map Record.coord
      = Table.keys u.entries := by
    simp [artifact, Table.keys]
  have hcounts := counts_ofRecords u.artifact.records
  rw [Record.shadowed_eq_nil (hcoords ▸ hmeasured.keys)] at hcounts
  rw [eq_ofRecords_of_load (hmeasured.decode_save hfits) hload]
  exact hcounts

theorem Reloaded.heldBytes (h : Reloaded s t) : t.heldBytes = s.heldBytes :=
  payloadBytes_perm (h.entries.map Prod.snd)

/-- The counter of a store is what the store holds and, from the artifact that
it was loaded from, the bytes of shadowed records, after any history.  So it is
exact if and only if no bytes were shadowed; it is never below an entry, so that
taking off what a write replaces does not wrap; and a store that was saved and
loaded again counts what is held, which is the same if and only if no bytes were
shadowed. -/
theorem counter_exact_iff_none_shadowed {acts : List StoreAct}
    (hstart : LoadedFrom records start)
    (hacts : ∀ a ∈ acts, ∀ b, a.content? = some b → b.Allocated)
    (hcount : (start.run acts).2.count < Size.limit)
    (hfits : (start.run acts).2.heldBytes
      + recordBytes (Record.shadowed records) < Size.limit) :
    let s := (start.run acts).2
    s.bytes.toNat = s.heldBytes + recordBytes (Record.shadowed records)
      ∧ (s.bytes.toNat = s.heldBytes
        ↔ recordBytes (Record.shadowed records) = 0)
      ∧ (∀ c stored, Table.get? s.entries c = some stored →
        stored.payload.length ≤ s.bytes.toNat)
      ∧ ∀ bytes, s.SavedAs bytes → ∃ t, load bytes = .ok t
        ∧ t.bytes.toNat = t.heldBytes ∧ t.heldBytes = s.heldBytes
        ∧ (t.bytes = s.bytes ↔ recordBytes (Record.shadowed records) = 0)
        ∧ (recordBytes (Record.shadowed records) = 0 → t.size = s.size) := by
  intro s
  have hs : s.bytes.toNat
      = s.heldBytes + recordBytes (Record.shadowed records) :=
    (hstart.counts.run acts).toNat_bytes hfits
  refine ⟨hs, by omega, ?_, ?_⟩
  · intro c stored hstored
    have hat : bytesAt s.entries c = stored.payload.length := by
      rw [bytesAt, hstored, Option.elim_some]
    calc stored.payload.length
        = bytesAt s.entries c := hat.symm
      _ ≤ s.heldBytes := bytesAt_le s.entries c
      _ ≤ s.bytes.toNat := by omega
  · intro bytes hbytes
    have hmeasured : s.Measured := hstart.measured.run hacts
    obtain ⟨t, hload, ht⟩ := hmeasured.load_savedAs hcount hbytes
    have hheld : t.heldBytes = s.heldBytes := ht.heldBytes
    have hcounted : t.bytes.toNat = t.heldBytes := by
      have hlimit : t.heldBytes + 0 < Size.limit := by
        rw [hheld]
        exact Nat.lt_of_le_of_lt (Nat.le_add_right _ _) hfits
      exact (hmeasured.counts_load hcount hbytes hload).toNat_bytes hlimit
    have hsame : t.bytes = s.bytes
        ↔ recordBytes (Record.shadowed records) = 0 := by
      rw [← UInt64.toNat_inj]
      omega
    refine ⟨t, hload, hcounted, hheld, hsame, fun hnone => ?_⟩
    rw [size, size, hsame.2 hnone]

/-- An artifact with two records of the origin. -/
def doubled : Artifact :=
  ⟨1, [⟨.origin, ⟨.incomplete, [1, 2, 3]⟩⟩,
    ⟨.origin, ⟨.complete, [4, 5, 6, 7, 8]⟩⟩]⟩

/-- The first record is counted for good, even when a chunk has taken the place
of the second one. -/
theorem counter_exact_iff_none_shadowed_of_doubled :
    let s := ((ofRecords doubled.records).run
      [.put (.ofBuffer ⟨.origin, .cube 1, #[.dirt]⟩ .complete), .close]).2
    load doubled.encode = .ok (ofRecords doubled.records)
      ∧ (ofRecords doubled.records).bytes = 8
      ∧ (ofRecords doubled.records).heldBytes = 5
      ∧ s.bytes.toNat = s.heldBytes + 3
      ∧ ∃ t, load s.save = .ok t ∧ t.bytes ≠ s.bytes := by
  intro s
  have hload : load doubled.encode = .ok (ofRecords doubled.records) := by rfl
  have hstart : LoadedFrom doubled.records (ofRecords doubled.records) :=
    .inr ⟨doubled.encode, 1, by rfl, hload⟩
  have hcount : s.count < Size.limit := show 1 < Size.limit by decide
  have hheld : s.heldBytes + recordBytes (Record.shadowed doubled.records)
      < Size.limit := by decide +kernel
  obtain ⟨hbytes, -, -, hreload⟩ :=
    counter_exact_iff_none_shadowed hstart (allocated_of_single .origin) hcount
      hheld
  obtain ⟨t, ht, -, -, hsame, -⟩ := hreload s.save (savedAs_save s)
  refine ⟨hload, rfl, rfl, hbytes, t, ht, fun heq => ?_⟩
  have hshadowed : recordBytes (Record.shadowed doubled.records) = 3 := rfl
  rw [hsame.1 heq] at hshadowed
  cases hshadowed

end FarStore

end ChunkStream
