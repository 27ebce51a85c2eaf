import ChunkStream.Proofs.Streaming.Reordering

/-!
# Rounds over the regions

Following the observers and making callbacks to all of them go through the
regions one after another.  A visit changes the region that it is for and tells
its listener, and what it does depends on no other region.  So a round through
alike tables makes alike tables, and every listener hears alike.

Following also claims coordinates, and here the visits do meet: what one has
claimed the next one finds claimed.  But in the end that is claimed what was
lacking at the beginning and at least one region demands, each coordinate once;
no order shows in that.
-/

namespace ChunkStream

/-! ## Rounds -/

/-- The callbacks that reach a listener. -/
def Interest.audible (i : Interest) (cbs : List Callback) : List Callback :=
  if i.listening then cbs else []

/-- The table is on the way through some observers: each of their regions has
been changed, and the callbacks have been entered. -/
structure Round (ids : List ObserverId)
    (next : ObserverId → Interest → Interest)
    (callbacks : ObserverId → Interest → List Callback)
    (rs rs' : Table ObserverId Interest) (js : List JournalEntry) : Prop where
  keys : Table.keys rs' = Table.keys rs
  region : ∀ k, Table.get? rs' k = if k ∈ ids
    then (Table.get? rs k).map (next k) else Table.get? rs k
  told : ∀ e ∈ js, e.isTold = true
  heard : ∀ k, JournalEntry.heardBy k js = if k ∈ ids
    then ((Table.get? rs k).map fun i => i.audible (callbacks k i)).getD []
    else []

namespace Interest

/-- The entries on the callbacks of a region are for its observer alone. -/
theorem heardBy_entries (i : Interest) (cbs : List Callback)
    (k : ObserverId) : JournalEntry.heardBy k (i.entries cbs)
      = if i.observer = k then i.audible cbs else [] := by
  unfold entries audible
  cases i.listening with
  | false => simp [JournalEntry.heardBy]
  | true =>
    rw [if_pos rfl, if_pos rfl, JournalEntry.heardBy, List.filterMap_map]
    split
    · next h =>
      have htold : JournalEntry.toldTo? k ∘ JournalEntry.told i.observer
          = some := funext fun _ => if_pos h
      rw [htold, List.filterMap_some]
    · next h =>
      have htold : JournalEntry.toldTo? k ∘ JournalEntry.told i.observer
          = fun _ => none := funext fun _ => if_neg h
      rw [htold, List.filterMap_none]

theorem isTold_of_mem_entries {i : Interest} {cbs : List Callback}
    {e : JournalEntry} (h : e ∈ i.entries cbs) : e.isTold = true := by
  unfold entries at h
  split at h
  · obtain ⟨cb, -, rfl⟩ := List.mem_map.1 h
    rfl
  · cases h

end Interest

theorem Regions.Named.adjust {rs : Table ObserverId Interest}
    (h : Named rs) {id : ObserverId} {i : Interest} (hi : i.observer = id) :
    Named (Table.adjust rs id fun _ => i) := by
  intro k j hj
  rw [Table.get?_adjust] at hj
  split at hj
  · next hk =>
    obtain ⟨-, -, rfl⟩ := Option.map_eq_some_iff.1 hj
    exact hi.trans hk.symm
  · exact h k j hj

namespace Round

variable {ids : List ObserverId} {id : ObserverId} {i : Interest}
  {next : ObserverId → Interest → Interest}
  {callbacks : ObserverId → Interest → List Callback}
  {rs rs' ss ss' : Table ObserverId Interest} {js ks : List JournalEntry}

theorem nil : Round [] next callbacks rs rs [] where
  keys := rfl
  region _ := by simp
  told _ h := absurd h List.not_mem_nil
  heard _ := by simp [JournalEntry.heardBy]

/-- Nothing is done for an observer that is not tracked. -/
theorem skip (h : Round ids next callbacks rs rs' js)
    (hid : Table.get? rs id = none) :
    Round (id :: ids) next callbacks rs rs' js where
  keys := h.keys
  region k := by
    rw [h.region]
    by_cases hk : k = id
    · subst hk
      simp [hid]
    · simp [hk]
  told := h.told
  heard k := by
    rw [h.heard]
    by_cases hk : k = id
    · subst hk
      simp [hid]
    · simp [hk]

/-- One region is visited before the others. -/
theorem visit (hid : id ∉ ids) (hi : Table.get? rs id = some i)
    (hnamed : i.observer = id)
    (h : Round ids next callbacks (Table.adjust rs id fun _ => next id i)
      rs' js) :
    Round (id :: ids) next callbacks rs rs'
      (i.entries (callbacks id i) ++ js) where
  keys := h.keys.trans (Table.keys_adjust _ _ _)
  region k := by
    rw [h.region, Table.get?_adjust]
    by_cases hk : k = id
    · subst hk
      rw [if_neg hid, if_pos rfl, if_pos List.mem_cons_self, hi]
      rfl
    · simp only [List.mem_cons, hk, false_or, if_false]
  told e he := by
    rcases List.mem_append.1 he with he | he
    · exact Interest.isTold_of_mem_entries he
    · exact h.told e he
  heard k := by
    have hthis := i.heardBy_entries (callbacks id i) k
    have hothers := h.heard k
    rw [Table.get?_adjust] at hothers
    rw [JournalEntry.heardBy] at *
    rw [List.filterMap_append, hthis, hothers, hnamed]
    by_cases hk : k = id
    · subst hk
      rw [if_pos rfl, if_neg hid, if_pos List.mem_cons_self, hi,
        List.append_nil]
      rfl
    · simp only [List.mem_cons, hk, Ne.symm hk, false_or, if_false,
        List.nil_append]

/-- A round through a whole table does the same to each region. -/
theorem get?_whole (h : Round (Table.keys rs) next callbacks rs rs' js)
    (k : ObserverId) :
    Table.get? rs' k = (Table.get? rs k).map (next k) := by
  rw [h.region]
  split
  · rfl
  · next hk =>
    rw [Table.get?_eq_none_iff.2 hk]
    rfl

theorem heardBy_whole (h : Round (Table.keys rs) next callbacks rs rs' js)
    (k : ObserverId) : JournalEntry.heardBy k js
      = ((Table.get? rs k).map fun i =>
        i.audible (callbacks k i)).getD [] := by
  rw [h.heard]
  split
  · rfl
  · next hk =>
    rw [Table.get?_eq_none_iff.2 hk]
    rfl

/-- A round does not show in which order it went. -/
theorem alike (hrs : Regions.Alike rs ss)
    (hnext : ∀ k i j, Interest.Alike i j →
      Interest.Alike (next k i) (next k j)
        ∧ Callback.Alike (callbacks k i) (callbacks k j))
    (h : Round (Table.keys rs) next callbacks rs rs' js)
    (h' : Round (Table.keys ss) next callbacks ss ss' ks) :
    Regions.Alike rs' ss' ∧ JournalEntry.Alike js ks := by
  have hothers {es : List JournalEntry} (hes : ∀ e ∈ es, e.isTold = true) :
      es.filter (!·.isTold) = [] := by
    rw [List.filter_eq_nil_iff]
    intro e he
    simp [hes e he]
  refine ⟨⟨?_, ?_⟩, ⟨?_, ?_⟩⟩
  · rw [h.keys, h'.keys]
    exact hrs.keys
  · intro k
    rw [h.get?_whole, h'.get?_whole]
    rcases hrs.region_cases k with ⟨hi, hj⟩ | ⟨i, j, hi, hj, hij⟩
    · rw [hi, hj]
      exact .none
    · rw [hi, hj]
      exact .some (hnext k i j hij).1
  · intro k
    rw [h.heardBy_whole, h'.heardBy_whole]
    rcases hrs.region_cases k with ⟨hi, hj⟩ | ⟨i, j, hi, hj, hij⟩
    · rw [hi, hj]
      exact .refl _
    · rw [hi, hj, Option.map_some, Option.map_some, Option.getD_some,
        Option.getD_some, Interest.audible, Interest.audible, hij.listening]
      split
      · exact (hnext k i j hij).2
      · exact .refl _
  · rw [hothers h.told, hothers h'.told]

end Round

/-! ## Callbacks to all regions -/

namespace StreamState

variable {σ : Type} {s t : StreamState σ}
  {f : Interest → Interest × List Callback}

/-- An operation on all regions is one round. -/
theorem round_updateRegions (hf : KeepsObserver f)
    (hkeys : (Table.keys s.regions).Nodup) (hnamed : Regions.Named s.regions) :
    ∃ rs js, s.updateRegions f
        = { s with regions := rs, journal := js.reverse ++ s.journal }
      ∧ Round (Table.keys s.regions) (fun _ i => (f i).1) (fun _ i => (f i).2)
        s.regions rs js := by
  have hfold (ids : List ObserverId) (hids : ids.Nodup) (s : StreamState σ)
      (hnamed : Regions.Named s.regions) :
      ∃ rs js, ids.foldl (fun s id => s.updateRegion id f) s
          = { s with regions := rs, journal := js.reverse ++ s.journal }
        ∧ Round ids (fun _ i => (f i).1) (fun _ i => (f i).2)
          s.regions rs js := by
    induction ids generalizing s with
    | nil => exact ⟨s.regions, [], rfl, .nil⟩
    | cons id ids ih =>
      obtain ⟨hid, hids⟩ := List.nodup_cons.1 hids
      rw [List.foldl_cons]
      cases hi : Table.get? s.regions id with
      | none =>
        obtain ⟨rs, js, hrest, hround⟩ := ih hids s hnamed
        rw [updateRegion_of_untracked hi]
        exact ⟨rs, js, hrest, hround.skip hi⟩
      | some i =>
        have hname := hnamed id i hi
        obtain ⟨rs, js, hrest, hround⟩ := ih hids (s.updateRegion id f) (by
          rw [updateRegion_of_tracked hi]
          exact hnamed.adjust ((hf i).1.trans hname))
        rw [updateRegion_of_tracked hi, hf.entries] at hrest hround
        refine ⟨rs, i.entries (f i).2 ++ js, ?_, hround.visit hid hi hname⟩
        rw [updateRegion_of_tracked hi, hf.entries, hrest]
        simp
  exact hfold _ hkeys s hnamed

/-- Where the table of regions is gone through in another order, an operation
on all regions comes to the same. -/
theorem Alike.updateRegions (h : Alike s t) (hs : s.Keyed)
    (hkeeps : KeepsObserver f) (hf : Interest.Alike.Respected f) :
    Alike (s.updateRegions f) (t.updateRegions f) := by
  have ht := h.keyed hs
  obtain ⟨rs, js, hs', hround⟩ :=
    round_updateRegions hkeeps hs.observers hs.named
  obtain ⟨ss, ks, ht', hround'⟩ :=
    round_updateRegions hkeeps ht.observers ht.named
  obtain ⟨hregions, hjournal⟩ :=
    hround.alike h.regions (fun _ => hf) hround'
  rw [hs', ht']
  exact { h with
    regions := hregions, journal := hjournal.reverse.append h.journal }

theorem Keyed.updateRegions (hs : s.Keyed) (hkeeps : KeepsObserver f) :
    (s.updateRegions f).Keyed := by
  obtain ⟨rs, js, hs', hround⟩ :=
    round_updateRegions hkeeps hs.observers hs.named
  rw [hs']
  refine ⟨hs.coords, hs.ages, hround.keys ▸ hs.observers, ?_⟩
  intro k i hi
  rw [hround.get?_whole] at hi
  obtain ⟨j, hj, rfl⟩ := Option.map_eq_some_iff.1 hi
  exact (hkeeps j).1.trans (hs.named k j hj)

end StreamState

/-! ## Following the observers -/

namespace Interest

/-- The callbacks of attending to a region. -/
def attendance (ready : Coord → Bool) (position : Option Coord)
    (i : Interest) : List Callback :=
  (i.follow position).2 ++
    if (i.follow position).1.dirty
    then ((i.follow position).1.needed.filter ready).map .ready else []

/-- What is requested for a region: its footprint and a margin, if it is dirty
and not all of the footprint is ready. -/
def demand (ready : Coord → Bool) (position : Option Coord)
    (i : Interest) : List Coord :=
  let j := (i.follow position).1
  if j.dirty && j.needed.any fun c => !ready c
  then (j.expanded .production).toList else []

theorem nodup_demand (ready : Coord → Bool) (position : Option Coord)
    (i : Interest) : (i.demand ready position).Nodup := by
  unfold demand
  simp only
  split
  · exact Box.nodup_toList
  · exact List.nodup_nil

theorem keepsObserver_reshape :
    StreamState.KeepsObserver Interest.reshape := by
  intro i
  unfold reshape
  simp only
  split <;> exact ⟨rfl, rfl⟩

theorem keepsObserver_follow (position : Option Coord) :
    StreamState.KeepsObserver (follow position) := by
  intro i
  cases position with
  | none => exact ⟨rfl, rfl⟩
  | some c =>
    simp only [follow]
    split
    · exact ⟨rfl, rfl⟩
    · exact keepsObserver_reshape _

theorem keepsObserver_chunkReady (c : Coord) :
    StreamState.KeepsObserver (chunkReady c) := by
  intro i
  unfold chunkReady
  split <;> exact ⟨rfl, rfl⟩

theorem keepsObserver_chunkUnloaded (c : Coord) :
    StreamState.KeepsObserver (chunkUnloaded c) := by
  intro i
  rw [chunkUnloaded_spec]
  exact ⟨rfl, rfl⟩

theorem keepsObserver_setDistance (d : UInt32) :
    StreamState.KeepsObserver (setDistance d) := by
  intro i
  unfold setDistance
  split
  · exact ⟨rfl, rfl⟩
  · exact keepsObserver_reshape _

theorem observer_served (ready : Coord → Bool) (i : Interest) :
    (i.served ready).observer = i.observer := by
  obtain ⟨rs, hreported⟩ := reportAll_spec (i.needed.filter ready) i
  rw [served, hreported]
  rfl

theorem observer_attend (ready : Coord → Bool) (position : Option Coord)
    (i : Interest) : (i.attend ready position).observer = i.observer := by
  have hfollow := (keepsObserver_follow position i).1
  unfold attend
  simp only
  split
  · exact (observer_served ready _).trans hfollow
  · exact hfollow

namespace Alike

variable {i j : Interest}

theorem reportAll (h : Alike i j) (cs : List Coord) :
    Alike (i.reportAll cs) (j.reportAll cs) := by
  induction cs generalizing i j with
  | nil => exact h
  | cons c cs ih => exact ih (chunkReady c i j h).1

theorem attend (h : Alike i j) (ready : Coord → Bool)
    (position : Option Coord) :
    Alike (i.attend ready position) (j.attend ready position)
      ∧ Callback.Alike (i.attendance ready position)
        (j.attendance ready position)
      ∧ j.demand ready position = i.demand ready position := by
  obtain ⟨hregion, hcallbacks⟩ := follow position i j h
  unfold Interest.attend Interest.attendance Interest.demand
  simp only [hregion.dirty, hregion.needed, hregion.expanded, and_true]
  refine ⟨?_, hcallbacks.append (.refl _)⟩
  split
  · have hreported := hregion.reportAll
      ((i.follow position).1.needed.filter ready)
    rw [Interest.served, Interest.served, hregion.needed]
    exact { hreported with dirty := rfl }
  · exact hregion

end Alike

end Interest

namespace Provider

variable {σ : Type} {setup : Setup σ} {p q : Provider σ} {id : ObserverId}
  {i : Interest}

theorem followObserver_of_untracked (position : Option Coord)
    (hi : Table.get? p.state.regions id = none) :
    p.followObserver setup id position = p := by
  have hfollow : p.modifyState (·.updateRegion id (Interest.follow position))
      = p.attended setup [] [] p.state.regions :=
    modifyState_attended (StreamState.updateRegion_of_untracked hi _)
  rw [followObserver_eq, hfollow, attended_nil]
  simp only [hi]

/-- A visit claims what its region demands and is free, tells the listener and
changes the region. -/
theorem followObserver_of_tracked
    (hclosed : p.pipeline.queue.closed = p.pipeline.stopped)
    (position : Option Coord)
    (hi : Table.get? p.state.regions id = some i) :
    p.followObserver setup id position = p.attended setup
      ((i.demand p.state.isReady position).filter p.takes)
      (i.entries (i.attendance p.state.isReady position))
      (Table.adjust p.state.regions id fun _ =>
        i.attend p.state.isReady position) := by
  let j := (i.follow position).1
  let js := i.entries (i.follow position).2
  let rs := Table.adjust p.state.regions id fun _ => j
  have hfollow : p.modifyState (·.updateRegion id (Interest.follow position))
      = p.attended setup [] js rs :=
    modifyState_updateRegion (Interest.keepsObserver_follow position) hi
  have hj : Table.get? (p.attended setup [] js rs).state.regions id
      = some j := by
    show Table.get? (Table.adjust p.state.regions id fun _ => j) id = _
    rw [Table.get?_adjust, if_pos rfl, hi, Option.map_some]
  have htakes : (p.attended setup [] js rs).takes = p.takes := by
    funext c
    rw [takes_attended]
    simp
  have hready : (p.attended setup [] js rs).state.isReady
      = p.state.isReady := rfl
  have hentries : j.entries = i.entries :=
    funext ((Interest.keepsObserver_follow position).entries i)
  rw [followObserver_eq, hfollow]
  simp only [hj, hready]
  cases hdirty : j.dirty with
  | false =>
    have hattend : i.attend p.state.isReady position = j :=
      Interest.attend_of_clean hdirty
    have hdemand : i.demand p.state.isReady position = [] := by
      rw [Interest.demand, hdirty]
      rfl
    have hattendance : i.attendance p.state.isReady position
        = (i.follow position).2 := by
      rw [Interest.attendance, hdirty]
      exact List.append_nil _
    rw [hattend, hdemand, hattendance]
    rfl
  | true =>
    have hclosed' : (p.attended setup [] js rs).pipeline.queue.closed
        = (p.attended setup [] js rs).pipeline.stopped :=
      closed_attended hclosed
    have hserve := serve_eq setup hclosed' hj
      (j.needed.any fun c => !p.state.isReady c)
    have hattend : i.attend p.state.isReady position
        = j.served p.state.isReady := Interest.attend_of_dirty hdirty
    have hdemand : i.demand p.state.isReady position
        = if j.needed.any fun c => !p.state.isReady c
          then (j.expanded .production).toList else [] := by
      simp only [Interest.demand, j, hdirty, Bool.true_and]
    have hattendance : i.attendance p.state.isReady position
        = (i.follow position).2
          ++ (j.needed.filter p.state.isReady).map .ready := by
      rw [Interest.attendance, if_pos hdirty]
    rw [hready, htakes, hentries] at hserve
    rw [hattend, hdemand, hattendance, i.entries_append,
      ← Table.adjust_adjust_const _ _ j]
    exact hserve.trans attended_attended

/-- The way through some observers has claimed, each once, the coordinates that
were free at the beginning and that a region among theirs demands. -/
theorem round_followObservers (setup : Setup σ)
    (positions : ObserverId → Option Coord) (ids : List ObserverId)
    (hids : ids.Nodup)
    (hclosed : p.pipeline.queue.closed = p.pipeline.stopped)
    (hnamed : Regions.Named p.state.regions) :
    ∃ cs js rs, ids.foldl
          (fun p id => p.followObserver setup id (positions id)) p
        = p.attended setup cs js rs
      ∧ cs.Nodup
      ∧ (∀ c, c ∈ cs ↔ p.takes c = true ∧ ∃ k ∈ ids, ∃ i,
        Table.get? p.state.regions k = some i
          ∧ c ∈ i.demand p.state.isReady (positions k))
      ∧ Round ids (fun k => Interest.attend p.state.isReady (positions k))
        (fun k => Interest.attendance p.state.isReady (positions k))
        p.state.regions rs js := by
  induction ids generalizing p with
  | nil => exact ⟨[], [], p.state.regions, rfl, List.nodup_nil, by simp, .nil⟩
  | cons id ids ih =>
    obtain ⟨hid, hids⟩ := List.nodup_cons.1 hids
    rw [List.foldl_cons]
    cases hi : Table.get? p.state.regions id with
    | none =>
      obtain ⟨cs, js, rs, hrest, hcs, hmem, hround⟩ := ih hids hclosed hnamed
      rw [followObserver_of_untracked (positions id) hi]
      refine ⟨cs, js, rs, hrest, hcs, ?_, hround.skip hi⟩
      intro c
      simp [hmem, hi]
    | some i =>
      have hname := hnamed id i hi
      let ds := (i.demand p.state.isReady (positions id)).filter p.takes
      let ls := i.entries (i.attendance p.state.isReady (positions id))
      let ss := Table.adjust p.state.regions id fun _ =>
        i.attend p.state.isReady (positions id)
      rw [followObserver_of_tracked hclosed (positions id) hi]
      obtain ⟨cs, js, rs, hrest, hcs, hmem, hround⟩ :=
        ih (p := p.attended setup ds ls ss) hids (closed_attended hclosed)
          (hnamed.adjust ((i.observer_attend _ _).trans hname))
      refine ⟨ds ++ cs, ls ++ js, rs, hrest.trans attended_attended, ?_, ?_,
        hround.visit hid hi hname⟩
      · refine List.nodup_append.2
          ⟨(i.nodup_demand _ _).filter _, hcs, ?_⟩
        rintro c hc d hd rfl
        have hfree := ((hmem c).1 hd).1
        rw [takes_attended, Bool.and_eq_true, decide_eq_true_iff] at hfree
        exact hfree.2 hc
      · -- a later region finds claimed what an earlier one demands as well
        intro c
        have hbefore : c ∈ ds ↔ c ∈ i.demand p.state.isReady (positions id)
            ∧ p.takes c = true := List.mem_filter
        have hothers (k : ObserverId) (hk : k ∈ ids) :
            Table.get? (p.attended setup ds ls ss).state.regions k
              = Table.get? p.state.regions k := by
          have hne : k ≠ id := fun heq => hid (heq ▸ hk)
          show Table.get? (Table.adjust p.state.regions id _) k = _
          rw [Table.get?_adjust, if_neg hne]
        rw [List.mem_append, hmem, hbefore, takes_attended, Bool.and_eq_true,
          decide_eq_true_iff]
        constructor
        · rintro (⟨hdemand, hfree⟩ | ⟨⟨hfree, -⟩, k, hk, j, hj, hdemand⟩)
          · exact ⟨hfree, id, List.mem_cons_self, i, hi, hdemand⟩
          · exact ⟨hfree, k, List.mem_cons_of_mem id hk, j, hothers k hk ▸ hj,
              hdemand⟩
        · rintro ⟨hfree, k, hk, j, hj, hdemand⟩
          by_cases hc : c ∈ ds
          · exact .inl (hbefore.1 hc)
          · rcases List.mem_cons.1 hk with rfl | hk
            · rw [hi, Option.some.injEq] at hj
              subst hj
              exact .inl ⟨hdemand, hfree⟩
            · exact .inr ⟨⟨hfree, hc⟩, k, hk, j, hothers k hk ▸ hj, hdemand⟩

theorem keyed_followObservers (setup : Setup σ) (hs : p.state.Keyed)
    (hclosed : p.pipeline.queue.closed = p.pipeline.stopped)
    (positions : ObserverId → Option Coord) :
    (p.followObservers setup positions).state.Keyed := by
  obtain ⟨cs, js, rs, hfollowed, -, -, hround⟩ :=
    round_followObservers setup positions _ hs.observers hclosed hs.named
  have hp : p.followObservers setup positions = p.attended setup cs js rs :=
    hfollowed
  rw [hp]
  refine ⟨hs.coords, hs.ages, hround.keys ▸ hs.observers, ?_⟩
  intro k i hi
  have hregion := hround.get?_whole k
  rw [show Table.get? rs k = some i from hi] at hregion
  obtain ⟨j, hj, rfl⟩ := Option.map_eq_some_iff.1 hregion.symm
  exact (j.observer_attend _ _).trans (hs.named k j hj)

/-- Where regions and chunks are gone through in another order, following the
observers comes to the same: the same coordinates are claimed, and their tasks
differ in their tickets alone. -/
theorem Alike.followObservers (h : p.Alike q) (setup : Setup σ)
    (hs : p.state.Keyed)
    (hclosed : p.pipeline.queue.closed = p.pipeline.stopped)
    (positions : ObserverId → Option Coord) :
    (p.followObservers setup positions).Alike
      (q.followObservers setup positions) := by
  have hstopped : q.pipeline.stopped = p.pipeline.stopped :=
    congrArg (fun q => q.pipeline.stopped) h.frame
  have ht := h.state.keyed hs
  obtain ⟨cs, js, rs, hp, hcs, hmem, hround⟩ :=
    round_followObservers setup positions _ hs.observers hclosed hs.named
  obtain ⟨ds, ks, ss, hq, hds, hmem', hround'⟩ :=
    round_followObservers setup positions _ ht.observers
      ((h.queue.closed.trans hclosed).trans hstopped.symm) ht.named
  have hready := h.state.isReady hs
  have htakes : q.takes = p.takes := by
    funext c
    rw [takes, takes, hstopped, h.state.lacks hs]
  rw [hready] at hround'
  rw [hready, htakes] at hmem'
  have hattend (k : ObserverId) (i j : Interest) (hij : i.Alike j) :=
    hij.attend p.state.isReady (positions k)
  obtain ⟨hregions, hjournal⟩ := hround.alike h.state.regions
    (fun k i j hij => ⟨(hattend k i j hij).1, (hattend k i j hij).2.1⟩) hround'
  have hperm : ds.Perm cs := by
    rw [List.perm_ext_iff_of_nodup hds hcs]
    intro c
    rw [hmem, hmem']
    apply and_congr_right
    intro _
    apply exists_congr
    intro k
    rw [h.state.regions.keys.mem_iff]
    apply and_congr_right
    intro _
    rcases h.state.regions.region_cases k with ⟨hi, hj⟩ | ⟨i, j, hi, hj, hij⟩
    · rw [hi, hj]
    · simp only [hi, hj, Option.some.injEq, exists_eq_left',
        (hattend k i j hij).2.2]
  have htask (c : Coord) :
      taskFor setup c q.state = taskFor setup c p.state := by
    rw [taskFor, taskFor, h.state.far]
  have hpriority : Production.priority q.state
      = Production.priority p.state := by
    rw [Production.priority, Production.priority, h.state.epoch,
      h.state.centers]
  have hp' : p.followObservers setup positions = p.attended setup cs js rs := hp
  have hq' : q.followObservers setup positions = q.attended setup ds ks ss := hq
  rw [hp', hq']
  refine ⟨?_, ?_, ?_⟩
  · rw [h.frame]
    rfl
  · have hclaims : (ds.reverse ++ q.state.preparing).Perm
        (cs.reverse ++ p.state.preparing) :=
      ((ds.reverse_perm.trans hperm).trans cs.reverse_perm.symm).append
        h.state.preparing
    exact { h.state with
      preparing := hclaims
      regions := hregions
      journal := hjournal.reverse.append h.state.journal }
  · have htasks := TaskQueue.alike_enqueueAll_of_perm
      (p := Production.priority p.state)
      (hperm.map fun c => taskFor setup c p.state) p.pipeline.queue
    rw [attended, attended, funext htask, hpriority]
    exact htasks.trans (h.queue.enqueueAll _)

end Provider

end ChunkStream
