import ChunkStream.Proofs.Streaming.Following

/-!
# Flags of regions

A region is attended to when its flag is lowered, by the act that begins to
track its observer or by an update that finds the flag raised.  Between two such
moments its footprint stays.  So what a region has been told, and what has been
requested for it, is decided by the last moment at which its flag was lowered;
`lastCleared?` finds the session before that act.
-/

namespace ChunkStream

variable {σ : Type} {setup : Setup σ}

namespace Session

variable {s : Session σ} {a : Act} {id : ObserverId}

/-- The act lowers the flag of the region of an observer: it begins to track the
observer, or it is an update that finds the flag raised or raises it itself. -/
def clears (id : ObserverId) (a : Act) (s : Session σ) : Bool :=
  match a with
  | .track k _ _ =>
      k = id && !Table.contains s.provider.state.regions id
        && (s.position id).isSome
  | .update =>
      (Table.get? s.provider.state.regions id).any fun i =>
        i.dirty || (i.follow (s.position id)).1.dirty
  | _ => false

theorem clears_track (k : ObserverId) (d : UInt32) (l : Bool) :
    s.clears id (.track k d l)
      = (k = id && !Table.contains s.provider.state.regions id
        && (s.position id).isSome) := rfl

theorem clears_update :
    s.clears id .update = (Table.get? s.provider.state.regions id).any fun i =>
      i.dirty || (i.follow (s.position id)).1.dirty := rfl

theorem clears_of_ne (hupdate : a ≠ .update)
    (htrack : ∀ k d l, a ≠ .track k d l) : s.clears id a = false := by
  cases a with
  | update => exact absurd rfl hupdate
  | track k d l => exact absurd rfl (htrack k d l)
  | _ => rfl

/-- Tracking an observer that is tracked already, or that is not seen, lowers no
flag. -/
theorem clears_track_of_known {k : ObserverId}
    (h : Table.contains s.provider.state.regions k = true
      ∨ s.position k = none) (d : UInt32) (l : Bool) (id : ObserverId) :
    s.clears id (.track k d l) = false := by
  rw [clears_track]
  by_cases hk : k = id
  · subst hk
    rcases h with h | h <;> simp [h]
  · simp [hk]

/-- The session before the last act of a run that lowered the flag of the region
of an observer. -/
def lastCleared? (setup : Setup σ) (id : ObserverId) :
    List Act → Session σ → Option (Session σ)
  | [], _ => none
  | a :: acts, s =>
      lastCleared? setup id acts
        (s.step setup a) <|> if s.clears id a then some s else none

/-- The last act of a run decides, and else what came before it. -/
theorem lastCleared?_concat (id : ObserverId) (acts : List Act) (a : Act)
    (s : Session σ) :
    lastCleared? setup id (acts ++ [a]) s
      = if (s.run setup acts).clears id a then some (s.run setup acts)
        else lastCleared? setup id acts s := by
  induction acts generalizing s with
  | nil =>
    rw [List.nil_append, lastCleared?, lastCleared?, lastCleared?]
    cases h : s.clears id a <;> simp [run, h]
  | cons b acts ih =>
    have hrun : s.run setup (b :: acts) = (s.step setup b).run setup acts := rfl
    rw [List.cons_append, lastCleared?, ih, hrun, lastCleared?]
    split <;> rfl

/-! ## Other acts than updates -/

theorem regions_work (s : Session σ) :
    (s.step setup .work).provider.state.regions = s.provider.state.regions := by
  show ((s.provider.work? setup).getD s.provider).state.regions = _
  cases h : s.provider.work? setup with
  | none => rfl
  | some q => exact (Provider.work?_frame h).1

/-- The acts that leave every region alone. -/
theorem regions_step (hp : Claims s.provider) (hupdate : a ≠ .update)
    (htrack : ∀ k d l, a ≠ .track k d l)
    (hdistance : ∀ k d, a ≠ .setDistance k d)
    (huntrack : ∀ k, a ≠ .untrack k) (hdispose : a ≠ .dispose) :
    (s.step setup a).provider.state.regions = s.provider.state.regions := by
  by_cases hhandling : a.isHandling = true
  · obtain ⟨t, ht, h⟩ := handled_step setup hhandling s
    rw [h]
    exact (congrArg StreamState.regions ht.frame).trans rfl
  cases a with
  | move k position => rfl
  | markReady c => rfl
  | work => exact regions_work s
  | request c =>
    have h := congrArg
      StreamState.regions (Provider.Requested.requestChunk setup hp c).frame
    exact h
  | requestBox b =>
    have h := congrArg
      StreamState.regions (Provider.requestBox_spec setup hp b).1.frame
    exact h
  | keep c =>
    simp only [step, keep]
    split <;> rfl
  | update => exact absurd rfl hupdate
  | track k d l => exact absurd rfl (htrack k d l)
  | setDistance k d => exact absurd rfl (hdistance k d)
  | untrack k => exact absurd rfl (huntrack k)
  | dispose => exact absurd rfl hdispose
  | _ => simp [Act.isHandling] at hhandling

/-- An act that is no update leaves the regions, forgets one or gives one another
distance, and then no flag is lowered; or it begins to track an observer that is
seen, and serves it. -/
theorem regions_step_cases (setup : Setup σ) (hp : Claims s.provider)
    (hupdate : a ≠ .update) (hdispose : a ≠ .dispose) :
    ((∀ id, s.clears id a = false)
      ∧ ((s.step setup a).provider.state.regions = s.provider.state.regions
        ∨ (∃ k, (s.step setup a).provider.state.regions
          = Table.erase s.provider.state.regions k)
        ∨ ∃ k d, (s.step setup a).provider.state.regions
          = (s.provider.state.updateRegion k
              (Interest.setDistance d)).regions))
      ∨ ∃ k c d l, a = .track k d l
        ∧ Table.contains s.provider.state.regions k = false
        ∧ s.position k = some c
        ∧ Provider.Served k (.seenAt k c d l)
          (s.provider.welcome k (.seenAt k c d l))
          (s.step setup a).provider := by
  by_cases hregions : (∀ k d l, a ≠ .track k d l)
    ∧ (∀ k d, a ≠ .setDistance k d)
      ∧ ∀ k, a ≠ .untrack k
  · exact .inl ⟨fun _ => clears_of_ne hupdate hregions.1, .inl <|
      regions_step hp hupdate hregions.1 hregions.2.1 hregions.2.2 hdispose⟩
  cases a with
  | setDistance k d => exact .inl ⟨fun _ => rfl, .inr (.inr ⟨k, d, rfl⟩)⟩
  | untrack k =>
    exact .inl ⟨fun _ => rfl,
      .inr (.inl ⟨k, Provider.regions_removeRelevance k _⟩)⟩
  | track k d l =>
    have hstep : (s.step setup (.track k d l)).provider
        = (s.provider.addRelevance setup k (s.position k) d l).2 := rfl
    cases hknown : Table.contains s.provider.state.regions k with
    | true =>
      refine .inl ⟨clears_track_of_known (.inl hknown) d l,
        .inr (.inr ⟨k, d, ?_⟩)⟩
      rw [hstep, Provider.addRelevance_of_tracked hknown]
      rfl
    | false =>
      cases hposition : s.position k with
      | none =>
        refine .inl ⟨clears_track_of_known (.inr hposition) d l, .inl ?_⟩
        rw [hstep, hposition, Provider.addRelevance_of_lost hknown]
        rfl
      | some c =>
        refine .inr ⟨k, c, d, l, rfl, hknown, hposition, ?_⟩
        rw [hstep, hposition, Provider.addRelevance_eq hknown]
        exact (Provider.served_welcome setup hp k _).2
  | _ => simp at hregions hupdate hdispose

/-- How a region stands after an act that is no update: it is the region from
before, perhaps with another distance, or the act began to track its observer
and served it. -/
theorem region_step (hp : Claims s.provider) (hupdate : a ≠ .update)
    (hdispose : a ≠ .dispose)
    {i' : Interest} (hi' : Table.get? (s.step setup a).provider.state.regions id
      = some i') :
    (s.clears id a = false
      ∧ ∃ i, Table.get? s.provider.state.regions id = some i
        ∧ Interest.Adjusted i i')
      ∨ (s.clears id a = true ∧ ∃ c d l, s.position id = some c
        ∧ i' = (Interest.seenAt id c d l).served s.provider.state.isReady
        ∧ Provider.SameReports s.provider (s.step setup a).provider
        ∧ (s.provider.pipeline.stopped = false → ∀ x, i'.box.contains x = true →
          (s.step setup a).provider.state.Holds x)) := by
  rcases regions_step_cases setup hp hupdate hdispose with
    ⟨hclears, hsame | ⟨k, herased⟩ | ⟨k, d, hdistance⟩⟩
      | ⟨k, c, d, l, rfl, hnew, hposition, hserved⟩
  · rw [hsame] at hi'
    exact .inl ⟨hclears id, i', hi', .inl rfl⟩
  · rw [herased, Table.get?_erase] at hi'
    split at hi'
    · cases hi'
    · exact .inl ⟨hclears id, i', hi', .inl rfl⟩
  · rw [hdistance, StreamState.get?_updateRegion] at hi'
    split at hi'
    · obtain ⟨i, hi, rfl⟩ := Option.map_eq_some_iff.1 hi'
      exact .inl ⟨hclears id, i, hi, .inr ⟨d, rfl⟩⟩
    · exact .inl ⟨hclears id, i', hi', .inl rfl⟩
  · have hwelcome :=
      (Provider.served_welcome setup hp k (.seenAt k c d l)).1
    have hready : (s.provider.welcome k (.seenAt k c d l)).state.isReady
        = s.provider.state.isReady :=
      funext (StreamState.isReady_congr hwelcome.near)
    rw [hserved.region, hready] at hi'
    by_cases hk : id = k
    · subst hk
      rw [if_pos rfl, Option.some.injEq] at hi'
      subst hi'
      refine .inr ⟨by simp [clears_track, hnew, hposition], c, d, l,
        hposition, rfl, hwelcome.trans hserved.same, ?_⟩
      intro hopen x hx
      rw [Interest.box_served] at hx
      rcases hserved.supplied (hwelcome.stopped.trans hopen) x hx with h | h
      · exact absurd h List.not_mem_nil
      · exact h
    · rw [if_neg hk, Provider.regions_welcome, Table.get?_insert,
        if_neg fun h => hk h.symm] at hi'
      exact .inl ⟨by simp [clears_track, Ne.symm hk], i', hi', .inl rfl⟩

/-- The observers that are tracked stay distinct. -/
theorem nodup_keys_step (hp : Claims s.provider)
    (hkeys : (Table.keys s.provider.state.regions).Nodup)
    (hupdate : a ≠ .update) (hdispose : a ≠ .dispose) :
    (Table.keys (s.step setup a).provider.state.regions).Nodup := by
  rcases regions_step_cases setup hp hupdate hdispose with
    ⟨-, hsame | ⟨k, herased⟩ | ⟨k, d, hdistance⟩⟩
      | ⟨k, c, d, l, -, -, -, hserved⟩
  · rwa [hsame]
  · rw [herased]
    exact Table.nodup_keys_erase hkeys k
  · rwa [hdistance, StreamState.keys_updateRegion]
  · rw [hserved.keys, Provider.regions_welcome]
    exact Table.nodup_keys_insert hkeys k _

/-! ## Updates -/

theorem nodup_keys_publishing (setup : Setup σ) (hp : Claims s.provider)
    (hkeys : (Table.keys s.provider.state.regions).Nodup) :
    (Table.keys (s.provider.publishing setup s.position).regions).Nodup := by
  rw [Provider.publishing, StreamState.regions_publishCenters,
    (Provider.followedAll setup hp hkeys s.position).keys]
  exact hkeys

theorem nodup_keys_update (hp : Claims s.provider)
    (hkeys : (Table.keys s.provider.state.regions).Nodup) :
    (Table.keys (s.step setup .update).provider.state.regions).Nodup := by
  show (Table.keys
    (Provider.compact
    setup (s.provider.sweeping setup s.position)).regions).Nodup
  rw [Provider.keys_compact, Provider.sweeping, Provider.keys_drainSignals]
  exact nodup_keys_publishing setup hp hkeys

/-- What an update makes of a region: it is attended to, told of the signals
that are resident, and loses the reports of what the sweep evicted. -/
theorem region_update (setup : Setup σ) (hp : Claims s.provider)
    (hkeys : (Table.keys s.provider.state.regions).Nodup) (id : ObserverId) :
    Table.get? (s.provider.publishing setup s.position).regions id
        = (Table.get? s.provider.state.regions id).map
          (Interest.attend s.provider.state.isReady (s.position id))
      ∧ Table.get? (s.step setup .update).provider.state.regions id
        = (Table.get? (s.provider.publishing setup s.position).regions id).map
          ((s.provider.publishing setup s.position).concluded setup) := by
  have hfollowed := Provider.followedAll setup hp hkeys s.position
  have hpublishing := nodup_keys_publishing setup hp hkeys
  have hsweeping :
      (Table.keys (s.provider.sweeping setup s.position).regions).Nodup := by
    rw [Provider.sweeping, Provider.keys_drainSignals]
    exact hpublishing
  constructor
  · rw [Provider.publishing, StreamState.regions_publishCenters,
      hfollowed.region]
  · have hcompact := Provider.get?_compact setup hsweeping id
    rw [Provider.sweeping, Provider.get?_drainSignals hpublishing,
      Option.map_map] at hcompact
    exact hcompact

/-- A region that is there after an update was there before. -/
theorem exists_region_of_update (hp : Claims s.provider)
    (hkeys : (Table.keys s.provider.state.regions).Nodup) {i' : Interest}
    (hi' : Table.get? (s.step setup .update).provider.state.regions id
      = some i') :
    ∃ i, Table.get? s.provider.state.regions id = some i
      ∧ Table.get? (s.provider.publishing setup s.position).regions id
        = some (i.attend s.provider.state.isReady (s.position id))
      ∧ i' = (s.provider.publishing setup s.position).concluded setup
        (i.attend s.provider.state.isReady (s.position id)) := by
  obtain ⟨hattended, hlast⟩ := region_update setup hp hkeys id
  rw [hi'] at hlast
  obtain ⟨j, hj, rfl⟩ := Option.map_eq_some_iff.1 hlast.symm
  rw [hj] at hattended
  obtain ⟨i, hi, rfl⟩ := Option.map_eq_some_iff.1 hattended.symm
  exact ⟨i, hi, hj, rfl⟩

/-- Following the observers leaves the stock of an update's later stages as it
was. -/
theorem sameReports_publishing (setup : Setup σ) (hp : Claims s.provider)
    (hkeys : (Table.keys s.provider.state.regions).Nodup) :
    Provider.SameReports s.provider
      ((s.provider.followObservers setup s.position).modifyState
        fun _ => s.provider.publishing setup s.position) :=
  (Provider.followedAll setup hp hkeys s.position).same.trans
    (.modifyState (SameStock.publishCenters _))

/-- An update whose sweep finds the near cache in order of age. -/
theorem step_update_of_pairwise
    (h : (s.provider.sweeping setup s.position).near.Pairwise fun a b => a.2.age
      ≤ b.2.age) :
    s.step setup .update = s.mapProvider fun p =>
      (p.followObservers setup s.position).modifyState fun t =>
        let swept := Eviction.sweepInOrder setup
          (Provider.drainSignals t.publishCenters)
        swept.1.foldl (fun t c => Eviction.notifyUnloaded c t) swept.2 := by
  have hupdate : s.provider.update setup s.position
      = (s.provider.followObservers setup s.position).modifyState
          fun _ => Provider.compact
              setup (s.provider.sweeping setup s.position) :=
    Provider.update_eq s.position s.provider
  rw [compact_eq, sweptState, Eviction.sweep_eq_sweepInOrder setup h] at hupdate
  exact congrArg (fun p => { s with provider := p }) hupdate

/-- No signal waits at the end of an update. -/
theorem signals_update :
    (s.step setup .update).provider.state.signals = [] := by
  show (Provider.compact setup (s.provider.sweeping setup s.position)).signals
    = []
  rw [(sameStock_compact setup _).signals, sweptState,
    (Eviction.sweep_spec setup _).1.signals]
  exact (Published.drainSignals _).signals

/-- No region is dirty at the end of an update. -/
theorem dirty_update (hp : Claims s.provider)
    (hkeys : (Table.keys s.provider.state.regions).Nodup) {i : Interest}
    (hi : Table.get? (s.step setup .update).provider.state.regions id
      = some i) : i.dirty = false := by
  obtain ⟨j, -, -, rfl⟩ := exists_region_of_update hp hkeys hi
  rw [StreamState.dirty_concluded]
  exact Interest.dirty_attend _ _ _

/-- Where observers are changes by moves alone. -/
theorem position_step (hmove : ∀ k c, a ≠ .move k c) (s : Session σ) :
    (s.step setup a).position = s.position := by
  suffices h : (s.step setup a).places = s.places by
    unfold position
    rw [h]
  cases a with
  | move k c => exact absurd rfl (hmove k c)
  | keep c =>
    simp only [step, keep]
    split <;> rfl
  | unlock c =>
    simp only [step, unlock]
    split <;> rfl
  | lock c =>
    simp only [step, lock]
    split
    · rfl
    · split
      · rfl
      · simp only [unlock]
        split <;> rfl
  | edit c e =>
    simp only [step, edit]
    cases s.handle? c with
    | none => rfl
    | some handle =>
      simp only
      cases s.chunk? handle with
      | none => rfl
      | some chunk =>
        simp only
        cases e.apply chunk with
        | error cause => rfl
        | ok next => cases next <;> rfl
  | _ => rfl

theorem position_move (k : ObserverId) (c : Option Coord) (s : Session σ)
    (id : ObserverId) :
    (s.step setup (.move k c)).position id = if k
        = id then c else s.position id := by
  show (Table.get? (Table.insert s.places k c) id).join = _
  rw [Table.get?_insert]
  split <;> rfl

end Session

end ChunkStream
