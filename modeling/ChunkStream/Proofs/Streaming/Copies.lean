import ChunkStream.Proofs.Store.FarStore
import ChunkStream.Proofs.Streaming.Finishing
import ChunkStream.Simulation

/-!
# Copies of a chunk

A chunk that has been evicted and loaded again is in both tiers.  The copy that
counts is the one in the near cache; where no chunk is resident it is the one
that the far tier keeps.  Moving chunks out of the near cache changes no copy
that counts, for a chunk is put into the far tier before it is dismissed, and
what has been put comes back as it was.
-/

namespace ChunkStream

open FarStore (Took)

namespace StreamState

variable {σ : Type} {s t : StreamState σ} {c : Coord}

theorem chunk?_of_near_eq_nil (h : s.near = []) (c : Coord) :
    s.chunk? c = none := by
  rw [chunk?, resident?, h]
  rfl

theorem near_ne_nil_of_chunk? {chunk : Chunk} (h : s.chunk? c = some chunk) :
    s.near ≠ [] := by
  intro hnil
  rw [chunk?_of_near_eq_nil hnil] at h
  cases h

@[simp]
theorem near_dismiss (c : Coord) (s : StreamState σ) :
    (s.dismiss c).near = Table.erase s.near c := by
  unfold dismiss
  cases h : s.resident? c with
  | none => exact (Table.erase_of_not_mem (Table.get?_eq_none_iff.1 h)).symm
  | some r => rfl

@[simp]
theorem far_dismiss (c : Coord) (s : StreamState σ) :
    (s.dismiss c).far = s.far := by
  unfold dismiss
  split <;> rfl

@[simp]
theorem journal_dismiss (c : Coord) (s : StreamState σ) :
    (s.dismiss c).journal = s.journal := by
  unfold dismiss
  split <;> rfl

/-- How many chunks the generator has made for a coordinate. -/
def generated (c : Coord) (s : StreamState σ) : Nat :=
  s.journal.count (.installed (.generate c))

end StreamState

variable {setup : Setup FarStore} {s t u : StreamState FarStore} {c : Coord}

/-- The tag and the content that count for a coordinate: those of its resident
chunk, else those in the far tier. -/
def StreamState.copy? (s : StreamState FarStore) (c : Coord) :
    Option (Completion × Option Buffer) :=
  ((s.chunk? c).map Chunk.copy).or (s.far.copy? c)

namespace StreamState

theorem copy?_of_chunk? {chunk : Chunk} (h : s.chunk? c = some chunk) :
    s.copy? c = some chunk.copy := by
  rw [copy?, h]
  rfl

theorem copy?_of_absent (h : s.chunk? c = none) :
    s.copy? c = s.far.copy? c := by
  rw [copy?, h]
  rfl

theorem copy?_congr (hchunk : t.chunk? c = s.chunk? c) (hfar : t.far = s.far) :
    t.copy? c = s.copy? c := by
  rw [copy?, copy?, hchunk, hfar]

/-- Resident chunks are in their places. -/
def Placed {σ : Type} (s : StreamState σ) : Prop :=
  ∀ c chunk, s.chunk? c = some chunk → chunk.Placed c

theorem Placed.of_near {σ : Type} {s t : StreamState σ} (hs : s.Placed)
    (h : t.near = s.near) : t.Placed :=
  fun c chunk hchunk => hs c chunk ((chunk?_congr h c).symm.trans hchunk)

/-- The chunks in both tiers are sound: a resident chunk is intact and in its
place, what is stored can be read back, and the far tier is open as long as a
chunk is resident. -/
structure Sound (s : StreamState FarStore) : Prop where
  intact : ∀ c chunk, s.chunk? c = some chunk → chunk.Intact c
  filed : s.far.Filed
  opened : s.near ≠ [] → s.far.closed = false

theorem Sound.placed (hs : s.Sound) : s.Placed :=
  fun c chunk h => (hs.intact c chunk h).toPlaced

theorem Sound.of_same (hs : s.Sound) (hnear : t.near = s.near)
    (hfar : t.far = s.far) : t.Sound where
  intact c chunk h := hs.intact c chunk ((chunk?_congr hnear c).symm.trans h)
  filed := by
    rw [hfar]
    exact hs.filed
  opened h := by
    rw [hfar]
    exact hs.opened (hnear ▸ h)

/-- A coordinate has a copy when its chunk is resident or stored. -/
theorem Sound.isSome_copy? (hs : s.Sound) (c : Coord) :
    (s.copy? c).isSome = true ↔
      s.isResident c = true ∨ s.far.contains c = true := by
  rw [copy?, Option.isSome_or, Option.isSome_map, Bool.or_eq_true,
    FarStore.isSome_copy? hs.filed, isResident_eq]

end StreamState

/-! ## Moving chunks between the tiers -/

/-- The second state has the copies of the first one, and what it has stored was
stored before or is the copy that counted. -/
structure Carried (s t : StreamState FarStore) : Prop where
  copy : ∀ c, t.copy? c = s.copy? c
  stored : ∀ c, t.far.copy? c = s.far.copy? c ∨ t.far.copy? c = s.copy? c

protected theorem Carried.refl (s : StreamState FarStore) : Carried s s :=
  ⟨fun _ => rfl, fun _ => .inl rfl⟩

protected theorem Carried.trans (h : Carried s t) (h' : Carried t u) :
    Carried s u where
  copy c := (h'.copy c).trans (h.copy c)
  stored c := by
    rcases h'.stored c with hsame | hcounted
    · rw [hsame]
      exact h.stored c
    · exact .inr (hcounted.trans (h.copy c))

/-- Besides, the second state is sound, and no chunk was made in between. -/
structure Conserved (s t : StreamState FarStore) : Prop
    extends Carried s t where
  sound : t.Sound
  closed : t.far.closed = s.far.closed
  generated : ∀ c, t.generated c = s.generated c

namespace Conserved

protected theorem trans (h : Conserved s t) (h' : Conserved t u) :
    Conserved s u where
  toCarried := h.toCarried.trans h'.toCarried
  sound := h'.sound
  closed := h'.closed.trans h.closed
  generated c := (h'.generated c).trans (h.generated c)

theorem of_same (hs : s.Sound) (hnear : t.near = s.near) (hfar : t.far = s.far)
    (hgenerated : ∀ c, t.generated c = s.generated c) : Conserved s t where
  sound := hs.of_same hnear hfar
  copy c := StreamState.copy?_congr (StreamState.chunk?_congr hnear c) hfar
  stored c := .inl (by rw [hfar])
  closed := by rw [hfar]
  generated := hgenerated

protected theorem refl (hs : s.Sound) : Conserved s s :=
  of_same hs rfl rfl fun _ => rfl

theorem of_sameStock (hs : s.Sound) (h : SameStock s t) : Conserved s t :=
  of_same hs h.near h.far fun _ => h.journal.count_eq rfl

theorem record (hs : s.Sound) {e : JournalEntry} (he : e.isAside = true) :
    Conserved s (s.record e) :=
  of_sameStock hs (.record he s)

/-- A resident chunk that was put into the far tier has left the near cache. -/
theorem shelve {chunk : Chunk} {b : Buffer} (hs : s.Sound)
    (hchunk : s.chunk? c = some chunk) (htook : Took chunk b s.far t.far)
    (hnear : ∀ d, t.chunk? d = if d = c then none else s.chunk? d)
    (hgenerated : ∀ d, t.generated d = s.generated d) : Conserved s t := by
  have hintact := hs.intact c chunk hchunk
  have hself : t.far.copy? c = s.copy? c := by
    rw [StreamState.copy?_of_chunk? hchunk,
      ← htook.copy?_self (hintact.content b htook.content).2, hintact.coord]
  have hother {d : Coord} (hd : d ≠ c) : t.far.copy? d = s.far.copy? d :=
    htook.copy?_of_ne (hintact.coord ▸ hd)
  refine ⟨⟨?_, ?_⟩, ⟨?_, ?_, fun _ => htook.closed⟩, ?_, hgenerated⟩
  · intro d
    by_cases hd : d = c
    · have habsent : t.chunk? d = none := by rw [hnear, if_pos hd]
      rw [StreamState.copy?_of_absent habsent, hd, hself]
    · rw [StreamState.copy?, StreamState.copy?, hnear, if_neg hd, hother hd]
  · intro d
    by_cases hd : d = c
    · exact .inr (hd ▸ hself)
    · exact .inl (hother hd)
  · intro d chunk' hd
    rw [hnear] at hd
    split at hd
    · cases hd
    · exact hs.intact d chunk' hd
  · apply htook.filed hs.filed
    rw [hintact.coord]
    exact hintact.toPlaced
  · rw [htook.closed, htook.opened]

/-! ## Eviction -/

theorem evict (htier : setup.tier = FarStore.tier) (hs : s.Sound) (c : Coord) :
    Conserved s (Eviction.evict setup c s).2 := by
  rcases Eviction.evict_cases setup c s with
    ⟨t, hnote, hevict⟩ | ⟨t, chunk, hchunk, hput, hswept, hevict⟩
  · rw [hevict]
    exact of_sameStock hs hnote.sameStock
  · rw [htier] at hput
    obtain ⟨b, htook⟩ := FarStore.took_of_put hput
    rw [hevict]
    refine shelve hs hchunk htook ?_ fun d => hswept.journal.count_eq rfl
    simpa only [List.mem_singleton] using hswept.chunk?

/-- A sweep conserves every copy. -/
theorem sweep (htier : setup.tier = FarStore.tier) (hs : s.Sound) :
    Conserved s (Eviction.sweep setup s).2 := by
  refine Eviction.sweep_preserve (P := Conserved s) ?_ ?_ (.refl hs)
  · exact fun t m n ht => ht.trans (record ht.sound rfl)
  · exact fun t c ht => ht.trans (evict htier ht.sound c)

theorem publishReady (hs : s.Sound) (c : Coord) :
    Conserved s (Provider.publishReady c s) := by
  have hsent : Conserved s (s.record (.sent (.ready c))) := by
    refine of_same hs rfl rfl fun d => ?_
    simp [StreamState.generated, StreamState.record]
  unfold Provider.publishReady
  simp only
  split
  · exact hsent.trans (of_sameStock hsent.sound (.updateRegions _ _))
  · exact hsent

theorem foldl {α : Type}
    {f : StreamState FarStore → α → StreamState FarStore}
    (hf : ∀ s a, s.Sound → Conserved s (f s a)) (as : List α) (hs : s.Sound) :
    Conserved s (as.foldl f s) :=
  List.foldlRecOn as f (.refl hs) fun t ht a _ => ht.trans (hf t a ht.sound)

/-- So does what is left of an update when the observers have been followed. -/
theorem compact (htier : setup.tier = FarStore.tier) (hs : s.Sound) :
    Conserved s (Provider.compact setup (Provider.drainSignals s)) := by
  have hcleared : Conserved s { s with signals := [] } :=
    of_same hs rfl rfl fun _ => rfl
  have hdrained : Conserved s (Provider.drainSignals s) :=
    hcleared.trans (foldl (fun s c hs => publishReady hs c) s.signals
      hcleared.sound)
  have hswept := hdrained.trans (sweep htier hdrained.sound)
  exact hswept.trans
    (of_sameStock hswept.sound (sameStock_compact setup _))

end Conserved

end ChunkStream
