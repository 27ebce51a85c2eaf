import ChunkStream.Proofs.Streaming.Acts

/-!
# The order of what is kept under keys

Chunks, claims, announcements, regions and the reports of a region are kept
under keys.  A table lists them in the order in which they came, but nothing is
promised about the order in which they are gone through.  `Reordered` puts them
into any other order; no look-up can tell the difference, and neither can
whoever asks what is resident.
-/

namespace ChunkStream

/-! ## Regions -/

/-- The regions differ at most in the order in which they remember reports. -/
structure Interest.Alike (i j : Interest) : Prop where
  observer : j.observer = i.observer
  listening : j.listening = i.listening
  center : j.center = i.center
  distance : j.distance = i.distance
  box : j.box = i.box
  relevant : j.relevant.Perm i.relevant
  dirty : j.dirty = i.dirty

namespace Interest.Alike

variable {i j k : Interest}

protected theorem refl (i : Interest) : Alike i i :=
  ⟨rfl, rfl, rfl, rfl, rfl, .refl _, rfl⟩

protected theorem symm (h : Alike i j) : Alike j i :=
  ⟨h.observer.symm, h.listening.symm, h.center.symm, h.distance.symm,
    h.box.symm, h.relevant.symm, h.dirty.symm⟩

protected theorem trans (h : Alike i j) (h' : Alike j k) : Alike i k :=
  ⟨h'.observer.trans h.observer, h'.listening.trans h.listening,
    h'.center.trans h.center, h'.distance.trans h.distance,
    h'.box.trans h.box, h'.relevant.trans h.relevant, h'.dirty.trans h.dirty⟩

theorem needed (h : Alike i j) : j.needed = i.needed := by
  rw [Interest.needed, Interest.needed, h.box]
  apply List.filter_congr
  intro c _
  rw [decide_eq_decide, h.relevant.mem_iff]

theorem expanded (h : Alike i j) (margin : Extents) :
    j.expanded margin = i.expanded margin := by
  rw [Interest.expanded, Interest.expanded, h.box]

end Interest.Alike

/-- The tables have alike regions under the same observers. -/
structure Regions.Alike (rs ss : Table ObserverId Interest) : Prop where
  keys : (Table.keys ss).Perm (Table.keys rs)
  region : ∀ k, Option.Rel Interest.Alike (Table.get? rs k) (Table.get? ss k)

/-- The values of a table are what is found under its keys. -/
theorem Table.values_eq_filterMap {κ α : Type} [DecidableEq κ] {t : Table κ α}
    (hkeys : (keys t).Nodup) : values t = (keys t).filterMap (get? t) := by
  rw [keys, List.filterMap_map, values, ← List.filterMap_eq_map]
  apply List.filterMap_congr
  intro e he
  exact ((get?_eq_some_iff hkeys).2 he).symm

namespace Regions.Alike

variable {rs ss ts : Table ObserverId Interest}

protected theorem refl (rs : Table ObserverId Interest) : Alike rs rs where
  keys := .refl _
  region k := by
    cases Table.get? rs k with
    | none => exact .none
    | some i => exact .some (.refl i)

theorem of_perm (hkeys : (Table.keys rs).Nodup) (h : ss.Perm rs) :
    Alike rs ss where
  keys := h.map _
  region k := by
    rw [Table.get?_of_perm h hkeys]
    exact (Alike.refl rs).region k

theorem region_cases (h : Alike rs ss) (k : ObserverId) :
    Table.get? rs k = none ∧ Table.get? ss k = none
      ∨ ∃ i j, Table.get? rs k = some i ∧ Table.get? ss k = some j
        ∧ Interest.Alike i j := by
  have hk := h.region k
  revert hk
  cases Table.get? rs k <;> cases Table.get? ss k <;> intro hk <;> cases hk
  · exact .inl ⟨rfl, rfl⟩
  · next hk => exact .inr ⟨_, _, rfl, rfl, hk⟩

protected theorem symm (h : Alike rs ss) : Alike ss rs where
  keys := h.keys.symm
  region k := by
    rcases h.region_cases k with ⟨hi, hj⟩ | ⟨i, j, hi, hj, hij⟩
    · rw [hi, hj]
      exact .none
    · rw [hi, hj]
      exact .some hij.symm

protected theorem trans (h : Alike rs ss) (h' : Alike ss ts) :
    Alike rs ts where
  keys := h'.keys.trans h.keys
  region k := by
    rcases h.region_cases k with ⟨hi, hj⟩ | ⟨i, j, hi, hj, hij⟩
    · rw [hi, ← hj]
      exact h'.region k
    · rcases h'.region_cases k with ⟨hj', -⟩ | ⟨j', l, hj', hl, hjl⟩
      · rw [hj] at hj'
        cases hj'
      · rw [hj, Option.some.injEq] at hj'
        subst hj'
        rw [hi, hl]
        exact .some (hij.trans hjl)

/-- What does not depend on the order of reports is the same throughout. -/
theorem map_values {α : Type} {f : Interest → α} (h : Alike rs ss)
    (hkeys : (Table.keys rs).Nodup)
    (hf : ∀ i j, Interest.Alike i j → f j = f i) :
    ((Table.values ss).map f).Perm ((Table.values rs).map f) := by
  have hsame (k : ObserverId) :
      (Table.get? ss k).map f = (Table.get? rs k).map f := by
    rcases h.region_cases k with ⟨hi, hj⟩ | ⟨i, j, hi, hj, hij⟩
    · rw [hi, hj]
    · rw [hi, hj, Option.map_some, Option.map_some, hf i j hij]
  rw [Table.values_eq_filterMap hkeys,
    Table.values_eq_filterMap (h.keys.nodup_iff.2 hkeys), List.map_filterMap,
    List.map_filterMap, funext hsame]
  exact h.keys.filterMap _

end Regions.Alike

/-! ## States -/

/-- The second state is the first one with chunks, claims, announcements,
regions and the reports of regions in another order. -/
structure StreamState.Reordered {σ : Type} (s t : StreamState σ) : Prop where
  frame : t = { s with
    near := t.near
    preparing := t.preparing
    announced := t.announced
    regions := t.regions }
  near : t.near.Perm s.near
  preparing : t.preparing.Perm s.preparing
  announced : t.announced.Perm s.announced
  regions : Regions.Alike s.regions t.regions

namespace StreamState.Reordered

variable {σ : Type} {s t : StreamState σ}

/-- Any order of the chunks will do. -/
theorem chunks {near : Table Coord Resident} (h : near.Perm s.near) :
    s.Reordered { s with near := near } :=
  ⟨rfl, h, .refl _, .refl _, .refl _⟩

theorem isResident (h : s.Reordered t) (c : Coord) :
    t.isResident c = s.isResident c := by
  have hkeys : (Table.keys t.near).Perm (Table.keys s.near) := h.near.map _
  rw [Bool.eq_iff_iff, isResident_iff_mem_keys, isResident_iff_mem_keys,
    hkeys.mem_iff]

theorem wellAged (h : s.Reordered t) (hs : WellAged s) : WellAged t where
  keys := (h.near.map _).nodup_iff.2 hs.keys
  ages := ((h.near.map Prod.snd).map _).nodup_iff.2 hs.ages
  below r hr := by
    have hnext : t.nextAge = s.nextAge := by rw [h.frame]
    rw [hnext]
    exact hs.below r ((h.near.map Prod.snd).mem_iff.1 hr)

theorem chunk? (h : s.Reordered t) (hs : WellAged s) (c : Coord) :
    t.chunk? c = s.chunk? c := by
  simp only [StreamState.chunk?, resident?,
    Table.get?_of_perm h.near hs.keys]

end StreamState.Reordered

end ChunkStream
