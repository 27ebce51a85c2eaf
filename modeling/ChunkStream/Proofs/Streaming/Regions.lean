import ChunkStream.Proofs.Streaming.Claims

/-!
# What becomes of one region

Regions do not look at each other.  So whatever the provider does can be
followed for one observer alone: this module says, for every operation, which
region an observer has afterwards, as a function of the region it had and of
which chunks are ready.
-/

namespace ChunkStream

/-! ## Operations on a region -/

namespace Interest

variable {i j : Interest} {c : Coord}

/-- Reports what is in the footprint among some coordinates. -/
def reportAll (cs : List Coord) (i : Interest) : Interest :=
  cs.foldl (fun i c => (i.chunkReady c).1) i

/-- Takes the reports of some coordinates back. -/
def withdrawAll (cs : List Coord) (i : Interest) : Interest :=
  cs.foldl (fun i c => (i.chunkUnloaded c).1) i

/-- Reports what is ready in the footprint and lowers the flag. -/
def served (ready : Coord → Bool) (i : Interest) : Interest :=
  (i.reportAll (i.needed.filter ready)).setUpToDate

/-- What an update makes of a region before it publishes. -/
def attend (ready : Coord → Bool) (position : Option Coord)
    (i : Interest) : Interest :=
  let j := (i.follow position).1
  if j.dirty then j.served ready else j

/-- The regions differ in center and distance at most. -/
structure SameView (i j : Interest) : Prop where
  box : j.box = i.box
  relevant : j.relevant = i.relevant
  dirty : j.dirty = i.dirty

protected theorem SameView.refl (i : Interest) : SameView i i := ⟨rfl, rfl, rfl⟩

/-- The region has taken over a footprint: the same one, or another one that it
is dirty for and of which it keeps the reports it has. -/
def Reshaped (i j : Interest) : Prop :=
  SameView i j ∨ j.dirty = true ∧ j.relevant = i.relevant.filter j.box.contains

theorem box_chunkReady (c : Coord) (i : Interest) :
    (i.chunkReady c).1.box = i.box := by
  unfold chunkReady
  split <;> rfl

theorem dirty_chunkReady (c : Coord) (i : Interest) :
    (i.chunkReady c).1.dirty = i.dirty := by
  unfold chunkReady
  split <;> rfl

theorem mem_relevant_chunkReady {d : Coord} :
    c ∈ (i.chunkReady d).1.relevant ↔ c ∈ i.relevant ∨ c = d
        ∧ i.box.contains d = true := by
  unfold chunkReady
  split
  · next h =>
    rw [List.mem_cons, or_comm]
    exact or_congr_right ⟨fun hc => ⟨hc, h.1⟩, fun hc => hc.1⟩
  · next h =>
    refine ⟨.inl, ?_⟩
    intro hc
    rcases hc with hc | ⟨rfl, hbox⟩
    · exact hc
    · by_contra hnot
      exact h ⟨hbox, hnot⟩

@[simp]
theorem box_reportAll (cs : List Coord) (i : Interest) :
    (i.reportAll cs).box = i.box := by
  induction cs generalizing i with
  | nil => rfl
  | cons d cs ih => exact (ih _).trans (box_chunkReady d i)

@[simp]
theorem dirty_reportAll (cs : List Coord) (i : Interest) :
    (i.reportAll cs).dirty = i.dirty := by
  induction cs generalizing i with
  | nil => rfl
  | cons d cs ih => exact (ih _).trans (dirty_chunkReady d i)

theorem mem_relevant_reportAll (cs : List Coord) :
    c ∈ (i.reportAll cs).relevant ↔ c ∈ i.relevant ∨ c ∈ cs
        ∧ i.box.contains c = true := by
  induction cs generalizing i with
  | nil => simp [reportAll]
  | cons d cs ih =>
    show c ∈ ((i.chunkReady d).1.reportAll cs).relevant ↔ _
    rw [ih, mem_relevant_chunkReady, box_chunkReady, List.mem_cons]
    constructor
    · rintro ((h | ⟨rfl, h⟩) | ⟨h, h'⟩)
      · exact .inl h
      · exact .inr ⟨.inl rfl, h⟩
      · exact .inr ⟨.inr h, h'⟩
    · rintro (h | ⟨rfl | h, h'⟩)
      · exact .inl (.inl h)
      · exact .inl (.inr ⟨rfl, h'⟩)
      · exact .inr ⟨h, h'⟩

theorem box_served (ready : Coord → Bool) (i : Interest) :
    (i.served ready).box = i.box :=
  box_reportAll _ _

/-- A region that is served reports all that is ready in its footprint. -/
theorem mem_relevant_served {ready : Coord → Bool} :
    c ∈ (i.served ready).relevant ↔
      c ∈ i.relevant ∨ i.box.contains c = true ∧ ready c = true := by
  show c ∈ (i.reportAll (i.needed.filter ready)).relevant ↔ _
  rw [mem_relevant_reportAll]
  simp only [needed, List.mem_filter, Box.mem_toList_iff, decide_eq_true_eq]
  tauto

theorem chunkUnloaded_spec (d : Coord) (i : Interest) :
    (i.chunkUnloaded d).1 = { i with relevant := i.relevant.erase d } := by
  unfold chunkUnloaded
  split
  · rfl
  · next h => rw [List.erase_of_not_mem h]

/-- Only reports of the given coordinates are taken back. -/
theorem withdrawAll_spec (cs : List Coord) (i : Interest) :
    i.withdrawAll cs = { i with relevant := i.relevant.diff cs } := by
  induction cs generalizing i with
  | nil => simp [withdrawAll]
  | cons d cs ih =>
    show (i.chunkUnloaded d).1.withdrawAll cs = _
    rw [ih, chunkUnloaded_spec, List.diff_cons]

@[simp]
theorem box_withdrawAll (cs : List Coord) (i : Interest) :
    (i.withdrawAll cs).box = i.box := by
  rw [withdrawAll_spec]

@[simp]
theorem dirty_withdrawAll (cs : List Coord) (i : Interest) :
    (i.withdrawAll cs).dirty = i.dirty := by
  rw [withdrawAll_spec]

theorem mem_of_mem_withdrawAll {cs : List Coord}
    (h : c ∈ (i.withdrawAll cs).relevant) : c ∈ i.relevant := by
  rw [withdrawAll_spec] at h
  exact List.diff_subset _ _ h

theorem mem_withdrawAll {cs : List Coord} (hc : c ∉ cs) (h : c ∈ i.relevant) :
    c ∈ (i.withdrawAll cs).relevant := by
  rw [withdrawAll_spec]
  exact List.mem_diff_of_mem h hc

/-- Either the footprint stays, or the region becomes dirty and keeps the
reports that lie in the new footprint. -/
theorem reshape_cases (i : Interest) :
    i.reshape.1 = i
      ∨ i.reshape.1.dirty = true
        ∧ i.reshape.1.relevant
            = i.relevant.filter i.reshape.1.box.contains := by
  unfold reshape
  simp only
  split
  · exact .inl rfl
  · exact .inr ⟨rfl, rfl⟩

theorem reshaped_setDistance (d : UInt32) (i : Interest) :
    Reshaped i (i.setDistance d).1 := by
  unfold setDistance
  split
  · exact .inl (.refl i)
  · rcases reshape_cases { i with distance := d } with h | h
    · rw [h]
      exact .inl ⟨rfl, rfl, rfl⟩
    · exact .inr h

/-- A clean region has not taken over another footprint. -/
theorem Reshaped.sameView (h : Reshaped i j) (hclean : j.dirty = false) :
    SameView i j := by
  rcases h with hview | ⟨hraised, -⟩
  · exact hview
  · rw [hclean] at hraised
    cases hraised

/-- The region has been given another distance, at most. -/
def Adjusted (i j : Interest) : Prop :=
  j = i ∨ ∃ d, j = (i.setDistance d).1

theorem Adjusted.reshaped (h : Adjusted i j) : Reshaped i j := by
  rcases h with rfl | ⟨d, rfl⟩
  · exact .inl (.refl j)
  · exact reshaped_setDistance d i

theorem reshaped_follow (c : Coord) (i : Interest) :
    Reshaped i (i.follow (some c)).1 := by
  unfold follow
  simp only
  split
  · exact .inl (.refl i)
  · rcases reshape_cases { i with center := c } with h | h
    · rw [h]
      exact .inl ⟨rfl, rfl, rfl⟩
    · exact .inr h

theorem follow_none (i : Interest) :
    (i.follow none).1 = { i with dirty := false } := rfl

/-- No update leaves a region dirty. -/
theorem dirty_attend (ready : Coord → Bool) (position : Option Coord)
    (i : Interest) : (i.attend ready position).dirty = false := by
  unfold attend
  simp only
  split
  · rfl
  · next h => simpa using h

theorem attend_of_dirty {ready : Coord → Bool} {position : Option Coord}
    (h : (i.follow position).1.dirty = true) :
    i.attend ready position = (i.follow position).1.served ready :=
  if_pos h

theorem attend_of_clean {ready : Coord → Bool} {position : Option Coord}
    (h : (i.follow position).1.dirty = false) :
    i.attend ready position = (i.follow position).1 := by
  unfold attend
  simp only [h, Bool.false_eq_true, if_false]

/-- An update serves a region whose observer is seen and that is dirty then.  A
clean region is as good as left alone, and for an observer that is lost a dirty
one is only told that it is clean. -/
theorem attend_cases (ready : Coord → Bool) (position : Option Coord)
    (i : Interest) :
    (∃ here, position = some here ∧ (i.follow position).1.dirty = true
        ∧ i.attend ready position = (i.follow position).1.served ready)
      ∨ (i.dirty = false ∧ (i.follow position).1.dirty = false
        ∧ SameView i (i.attend ready position))
      ∨ (position = none ∧ i.dirty = true) := by
  cases position with
  | none =>
    refine .inr ?_
    cases hdirty : i.dirty with
    | false =>
      refine .inl ⟨rfl, rfl, ?_⟩
      rw [attend_of_clean (congrArg dirty (follow_none i)), follow_none]
      exact ⟨rfl, rfl, hdirty.symm⟩
    | true => exact .inr ⟨rfl, rfl⟩
  | some here =>
    cases hdirty : (i.follow (some here)).1.dirty with
    | true => exact .inl ⟨here, rfl, rfl, attend_of_dirty hdirty⟩
    | false =>
      refine .inr (.inl ?_)
      have hview := (reshaped_follow here i).sameView hdirty
      refine ⟨hview.dirty.symm.trans hdirty, rfl, ?_⟩
      rwa [attend_of_clean hdirty]

theorem box_attend (ready : Coord → Bool) (position : Option Coord)
    (i : Interest) :
    (i.attend ready position).box = (i.follow position).1.box := by
  unfold attend
  simp only
  split
  · exact box_served _ _
  · rfl

/-! ### What is reported -/

/-- What the region reports lies in its footprint, and `P` holds of it. -/
def Reports (P : Coord → Prop) (i : Interest) : Prop :=
  ∀ c ∈ i.relevant, i.box.contains c = true ∧ P c

variable {P Q : Coord → Prop} {ready : Coord → Bool}

theorem reports_seenAt (id : ObserverId) (c : Coord) (d : UInt32) (l : Bool) :
    (seenAt id c d l).Reports P :=
  fun _ hc => absurd hc List.not_mem_nil

namespace Reports

theorem mono (hi : i.Reports P)
    (hPQ : ∀ c, i.box.contains c = true → P c → Q c) : i.Reports Q :=
  fun c hc => ⟨(hi c hc).1, hPQ c (hi c hc).1 (hi c hc).2⟩

theorem reshaped (hi : i.Reports P) (h : Reshaped i j) : j.Reports P := by
  intro c hc
  rcases h with h | ⟨-, h⟩
  · rw [h.relevant] at hc
    rw [h.box]
    exact hi c hc
  · rw [h] at hc
    exact ⟨(List.mem_filter.1 hc).2, (hi c (List.mem_filter.1 hc).1).2⟩

theorem reportAll (hi : i.Reports P) {cs : List Coord} (hcs : ∀ c ∈ cs, P c) :
    (i.reportAll cs).Reports P := by
  intro c hc
  rw [box_reportAll]
  rcases (mem_relevant_reportAll cs).1 hc with hc | ⟨hc, hin⟩
  · exact hi c hc
  · exact ⟨hin, hcs c hc⟩

theorem served (hi : i.Reports P) (hready : ∀ c, ready c = true → P c) :
    (i.served ready).Reports P := by
  intro c hc
  rw [box_served]
  rcases mem_relevant_served.1 hc with hc | ⟨hin, hc⟩
  · exact hi c hc
  · exact ⟨hin, hready c hc⟩

theorem follow (hi : i.Reports P) (position : Option Coord) :
    (i.follow position).1.Reports P := by
  cases position with
  | none => exact hi
  | some here => exact hi.reshaped (reshaped_follow here i)

theorem attend (hi : i.Reports P) (hready : ∀ c, ready c = true → P c)
    (position : Option Coord) : (i.attend ready position).Reports P := by
  unfold Interest.attend
  simp only
  split
  · exact (hi.follow position).served hready
  · exact hi.follow position

theorem withdrawAll (hi : i.Reports P) (cs : List Coord) :
    (i.withdrawAll cs).Reports P := by
  intro c hc
  rw [box_withdrawAll]
  exact hi c (mem_of_mem_withdrawAll hc)

end Reports

end Interest

/-! ## Look-ups -/

namespace StreamState

variable {σ : Type} {s : StreamState σ}
  {f : Interest → Interest × List Callback}

@[simp]
theorem regions_tell (i : Interest) (callbacks : List Callback)
    (s : StreamState σ) : (s.tell i callbacks).regions = s.regions := by
  unfold tell
  split
  · induction callbacks generalizing s with
    | nil => rfl
    | cons cb callbacks ih => exact ih _
  · rfl

theorem keys_updateRegion (id : ObserverId)
    (f : Interest → Interest × List Callback) (s : StreamState σ) :
    Table.keys (s.updateRegion id f).regions = Table.keys s.regions := by
  unfold updateRegion
  split
  · rfl
  · rw [regions_tell, Table.keys_adjust]

theorem get?_updateRegion (id : ObserverId)
    (f : Interest → Interest × List Callback)
    (s : StreamState σ) (k : ObserverId) :
    Table.get? (s.updateRegion id f).regions k
      = if k = id then (Table.get? s.regions k).map fun i => (f i).1
        else Table.get? s.regions k := by
  unfold updateRegion
  by_cases hk : k = id
  · subst hk
    rw [if_pos rfl]
    cases hi : Table.get? s.regions k with
    | none => exact hi
    | some i =>
      simp only [regions_tell]
      rw [Table.get?_adjust, if_pos rfl, hi]
      rfl
  · rw [if_neg hk]
    split
    · rfl
    · rw [regions_tell, Table.get?_adjust, if_neg hk]

/-- An operation on all regions is the operation on each. -/
theorem get?_updateRegions (hkeys : (Table.keys s.regions).Nodup)
    (f : Interest → Interest × List Callback) (k : ObserverId) :
    Table.get? (s.updateRegions f).regions k
      = (Table.get? s.regions k).map fun i => (f i).1 := by
  have hfold (ids : List ObserverId) (hids : ids.Nodup) (t : StreamState σ) :
      Table.get? (ids.foldl (fun s id => s.updateRegion id f) t).regions k
        = if k ∈ ids then (Table.get? t.regions k).map fun i => (f i).1
          else Table.get? t.regions k := by
    induction ids generalizing t with
    | nil => simp
    | cons id ids ih =>
      obtain ⟨hid, hids⟩ := List.nodup_cons.1 hids
      rw [List.foldl_cons, ih hids, get?_updateRegion]
      by_cases hk : k = id
      · subst hk
        rw [if_neg hid, if_pos rfl, if_pos List.mem_cons_self]
      · simp only [List.mem_cons, hk, false_or, if_false]
  unfold updateRegions
  rw [hfold _ hkeys]
  by_cases hk : k ∈ Table.keys s.regions
  · rw [if_pos hk]
  · rw [if_neg hk, Table.get?_eq_none_iff.2 hk]
    rfl

theorem keys_updateRegions (f : Interest → Interest × List Callback)
    (s : StreamState σ) :
    Table.keys (s.updateRegions f).regions = Table.keys s.regions := by
  have hfold (ids : List ObserverId) (t : StreamState σ) :
      Table.keys (ids.foldl (fun s id => s.updateRegion id f) t).regions
        = Table.keys t.regions := by
    induction ids generalizing t with
    | nil => rfl
    | cons id ids ih => exact (ih _).trans (keys_updateRegion id f t)
  exact hfold _ s

@[simp]
theorem regions_publishCenters (s : StreamState σ) :
    s.publishCenters.regions = s.regions := by
  unfold publishCenters
  simp only
  split <;> rfl

end StreamState

namespace Provider

variable {σ : Type} {setup : Setup σ} {s : StreamState σ} {p : Provider σ}

theorem keys_reportReady (id : ObserverId) (cs : List Coord)
    (s : StreamState σ) :
    Table.keys (reportReady id cs s).regions = Table.keys s.regions := by
  unfold reportReady
  induction cs generalizing s with
  | nil => rfl
  | cons c cs ih =>
    rw [List.foldl_cons, ih]
    split
    · exact StreamState.keys_updateRegion id _ s
    · rfl

/-- Reporting to one region reports what is ready, and the others are left
alone. -/
theorem get?_reportReady (observer : ObserverId) (cs : List Coord)
    (s : StreamState σ) (k : ObserverId) :
    Table.get? (reportReady observer cs s).regions k
      = if k = observer then (Table.get? s.regions k).map
        (Interest.reportAll (cs.filter s.isReady))
        else Table.get? s.regions k := by
  unfold reportReady
  induction cs generalizing s with
  | nil =>
    have hid : Interest.reportAll [] = id := rfl
    simp [hid]
  | cons c cs ih =>
    rw [List.foldl_cons]
    by_cases hready : s.isReady c = true
    · have hsame := SameStock.updateRegion observer (Interest.chunkReady c) s
      have hfilter : cs.filter
        (s.updateRegion observer (Interest.chunkReady c)).isReady
          = cs.filter s.isReady :=
        List.filter_congr fun n _ => StreamState.isReady_congr hsame.near n
      rw [if_pos hready, ih, hfilter, StreamState.get?_updateRegion,
        List.filter_cons_of_pos hready]
      by_cases hk : k = observer
      · subst hk
        simp only [if_true, Option.map_map]
        rfl
      · simp only [if_neg hk]
    · rw [if_neg hready, ih, List.filter_cons_of_neg hready]

/-- Publishing reports the resident signals to every region. -/
theorem get?_drainSignals (hkeys : (Table.keys s.regions).Nodup)
    (k : ObserverId) :
    Table.get? (drainSignals s).regions k
      = (Table.get? s.regions k).map
          (Interest.reportAll (s.signals.filter s.isResident)) := by
  have hfold (cs : List Coord) (t : StreamState σ)
    (ht : (Table.keys t.regions).Nodup) :
      Table.get? (cs.foldl (fun s c => publishReady c s) t).regions k
        = (Table.get? t.regions k).map
            (Interest.reportAll (cs.filter t.isResident)) := by
    induction cs generalizing t with
    | nil => exact (Option.map_id_apply).symm
    | cons c cs ih =>
      have hfilter : cs.filter (publishReady c t).isResident
          = cs.filter t.isResident :=
        List.filter_congr fun n _ =>
          StreamState.isResident_congr (Published.publishReady c t).near n
      have hresident :
          (t.record (.sent (.ready c))).isResident c = t.isResident c := rfl
      rw [List.foldl_cons]
      by_cases hc : t.isResident c = true
      · have hpublish : (publishReady c t).regions
            = ((t.record (.sent (.ready c))).updateRegions
                (Interest.chunkReady c)).regions := by
          unfold publishReady
          simp only [hresident, hc, if_true]
        have hstep : Table.get? (publishReady c t).regions k
            = (Table.get? t.regions k).map fun i => (i.chunkReady c).1 := by
          rw [hpublish]
          exact StreamState.get?_updateRegions (s := t.record _) ht _ k
        have hnext : (Table.keys (publishReady c t).regions).Nodup := by
          rw [hpublish, StreamState.keys_updateRegions]
          exact ht
        rw [ih _ hnext, hfilter, hstep, List.filter_cons_of_pos hc,
          Option.map_map]
        rfl
      · have hpublish : (publishReady c t).regions = t.regions := by
          unfold publishReady
          simp only [hresident, hc]
          rfl
        rw [ih _ (by rwa [hpublish]), hfilter, hpublish,
          List.filter_cons_of_neg hc]
  exact hfold s.signals { s with signals := [] } hkeys

theorem keys_drainSignals (s : StreamState σ) :
    Table.keys (drainSignals s).regions = Table.keys s.regions := by
  have hfold (cs : List Coord) (t : StreamState σ) :
      Table.keys (cs.foldl (fun s c => publishReady c s) t).regions
          = Table.keys t.regions := by
    induction cs generalizing t with
    | nil => rfl
    | cons c cs ih =>
      rw [List.foldl_cons, ih]
      unfold publishReady
      simp only
      split
      · exact StreamState.keys_updateRegions _ _
      · rfl
  exact hfold s.signals { s with signals := [] }

theorem keys_compact (setup : Setup σ) (s : StreamState σ) :
    Table.keys (compact setup s).regions = Table.keys s.regions := by
  have hfold (cs : List Coord) (t : StreamState σ) :
      Table.keys (cs.foldl (fun s c => Eviction.notifyUnloaded c s) t).regions
        = Table.keys t.regions := by
    induction cs generalizing t with
    | nil => rfl
    | cons c cs ih => exact (ih _).trans (StreamState.keys_updateRegions _ t)
  rw [compact_eq, hfold, sweptState, (Eviction.sweep_spec setup s).1.regions]

/-- A sweep takes back the reports of what it evicted. -/
theorem get?_compact (setup : Setup σ) (hkeys : (Table.keys s.regions).Nodup)
    (k : ObserverId) :
    Table.get? (compact setup s).regions k
      = (Table.get? s.regions k).map
          (Interest.withdrawAll (Eviction.sweep setup s).1) := by
  have hfold (cs : List Coord) (t : StreamState σ)
    (ht : (Table.keys t.regions).Nodup) :
      Table.get? (cs.foldl (fun s c => Eviction.notifyUnloaded c s) t).regions k
        = (Table.get? t.regions k).map (Interest.withdrawAll cs) := by
    induction cs generalizing t with
    | nil => exact (Option.map_id_apply).symm
    | cons c cs ih =>
      have hstep : Table.get? (Eviction.notifyUnloaded c t).regions k
          = (Table.get? t.regions k).map fun i => (i.chunkUnloaded c).1 :=
        StreamState.get?_updateRegions ht _ k
      have hnext : (Table.keys
          (Eviction.notifyUnloaded c t).regions).Nodup := by
        have hsame := StreamState.keys_updateRegions (Interest.chunkUnloaded c)
          t
        exact hsame.symm ▸ ht
      rw [List.foldl_cons, ih _ hnext, hstep, Option.map_map]
      rfl
  have hregions := (Eviction.sweep_spec setup s).1.regions
  rw [compact_eq, hfold _ _ (by rwa [sweptState, hregions]),
    sweptState, hregions]

end Provider

/-! ## The end of an update -/

/-- No neighbour of the footprint is among the coordinates. -/
def Interest.Spared (gone : List Coord) (i : Interest) : Prop :=
  ∀ c, i.box.contains c = true → ∀ n, (Box.neighborhood c).contains n
    = true → n ∉ gone

theorem Interest.Spared.not_mem {gone : List Coord} {i : Interest}
    (hi : i.Spared gone) {c : Coord}
    (hc : i.box.contains c = true) : c ∉ gone :=
  hi c hc c Box.contains_neighborhood_self

namespace StreamState

variable {σ : Type} {setup : Setup σ} {s : StreamState σ} {i : Interest}
  {id : ObserverId}
  {P Q : Coord → Prop}

/-- What publishing and sweeping make of a region. -/
def concluded (setup : Setup σ) (s : StreamState σ) (i : Interest) : Interest :=
  (i.reportAll (s.signals.filter s.isResident)).withdrawAll
    (Eviction.sweep setup (Provider.drainSignals s)).1

@[simp]
theorem box_concluded : (s.concluded setup i).box = i.box := by
  simp [concluded]

@[simp]
theorem dirty_concluded : (s.concluded setup i).dirty = i.dirty := by
  simp [concluded]

/-- The sweep of an update spares the footprints of all regions. -/
theorem spared_sweep (setup : Setup σ) (hkeys : (Table.keys s.regions).Nodup)
    (hi : Table.get? s.regions id = some i) :
    i.Spared (Eviction.sweep setup (Provider.drainSignals s)).1 := by
  intro c hc n hn hgone
  have hregion := Provider.get?_drainSignals hkeys id
  rw [hi, Option.map_some] at hregion
  have hretained := isRetained_of_neighbor hregion
    (by rwa [Interest.box_reportAll]) hn
  rw [(Eviction.sweep_spec setup _).2 n hgone] at hretained
  cases hretained

/-- What a region reports after an update is what it was told before and what
was signalled.  The sweep spares all of it. -/
theorem reports_concluded (hi : i.Reports P)
    (hsignals : ∀ c ∈ s.signals, s.isResident c = true → P c)
    (hPQ : ∀ c, i.box.contains c = true → P c → Q c) :
    (s.concluded setup i).Reports Q := by
  have hwaiting : ∀ c ∈ s.signals.filter s.isResident, P c := fun c hc =>
    hsignals c (List.mem_filter.1 hc).1 (List.mem_filter.1 hc).2
  exact ((hi.reportAll hwaiting).withdrawAll _).mono fun c hc =>
    hPQ c (by simpa using hc)

end StreamState

end ChunkStream
