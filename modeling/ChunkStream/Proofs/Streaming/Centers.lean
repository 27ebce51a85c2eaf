import ChunkStream.Proofs.Streaming.Lifetime
import ChunkStream.Proofs.Streaming.Ranking
import ChunkStream.Proofs.Streaming.Tracking

/-!
# The centers of the regions

The centers of regions change when an observer is tracked or forgotten and when
an update follows one that has moved.  All three publish the centers at their
end, sorted, and a publication that changes the list comes with a new epoch; no
other operation moves a region.  So between two acts the published centers are
those of the regions, also where tasks were queued in the middle of an update
and scored by the centers of before: the queue looks at the epoch once more when
it hands out a task.
-/

namespace ChunkStream

/-! ## Order -/

namespace Coord

variable {a b c : Coord}

theorem le_iff : a.le b = true ↔ a.x.toInt < b.x.toInt
    ∨ a.x.toInt = b.x.toInt ∧ (a.y.toInt < b.y.toInt
      ∨ a.y.toInt = b.y.toInt ∧ a.z.toInt ≤ b.z.toInt) := by
  simp only [le, ne_eq, ite_not, Int32.toInt_inj, ← Int32.lt_iff_toInt_lt,
    ← Int32.le_iff_toInt_le]
  by_cases hx : a.x = b.x
  · by_cases hy : a.y = b.y <;> simp [hx, hy]
  · simp [hx]

theorem le_total (a b : Coord) : (a.le b || b.le a) = true := by
  rw [Bool.or_eq_true, le_iff, le_iff]
  omega

theorem le_trans (hab : a.le b = true) (hbc : b.le c = true) :
    a.le c = true := by
  rw [le_iff] at *
  omega

theorem le_antisymm (hab : a.le b = true) (hba : b.le a = true) : a = b := by
  rw [le_iff] at hab hba
  have hx : a.x = b.x := Int32.toInt_inj.1 (by omega)
  have hy : a.y = b.y := Int32.toInt_inj.1 (by omega)
  have hz : a.z = b.z := Int32.toInt_inj.1 (by omega)
  exact (Coord.mk.injEq ..).mpr ⟨hx, hy, hz⟩

theorem pairwise_sorted (cs : List Coord) :
    (sorted cs).Pairwise fun a b => a.le b = true := by
  have htrans (a b c : Coord) : a.le b = true → b.le c = true → a.le c = true :=
    le_trans
  exact List.pairwise_mergeSort htrans le_total cs

theorem perm_sorted (cs : List Coord) : (sorted cs).Perm cs :=
  List.mergeSort_perm cs le

/-- Sorting hides the order from before. -/
theorem sorted_of_perm {cs ds : List Coord} (h : cs.Perm ds) :
    sorted cs = sorted ds :=
  List.Perm.eq_of_pairwise (fun _ _ _ _ => le_antisymm) (pairwise_sorted cs)
    (pairwise_sorted ds)
    ((perm_sorted cs).trans (h.trans (perm_sorted ds).symm))

end Coord

/-- A score does not depend on the order of the centers. -/
theorem score_of_perm {cs ds : List Coord} (h : cs.Perm ds) (c : Coord) :
    score cs c = score ds c := by
  have hmin : (cs.map (·.distance c)).min? = (ds.map (·.distance c)).min? := by
    ext n
    simp only [List.min?_eq_some_iff, (h.map (·.distance c)).mem_iff]
  rw [score, score, hmin]

/-! ## What leaves regions where they are -/

namespace Interest

theorem center_setDistance (d : UInt32) (i : Interest) :
    (i.setDistance d).1.center = i.center :=
  (place_setDistance d i).1

theorem center_chunkReady (c : Coord) (i : Interest) :
    (i.chunkReady c).1.center = i.center := by
  unfold chunkReady
  split <;> rfl

theorem center_chunkUnloaded (c : Coord) (i : Interest) :
    (i.chunkUnloaded c).1.center = i.center := by
  rw [chunkUnloaded_spec]

end Interest

namespace StreamState

variable {σ : Type}

/-- The centers of the tracked regions. -/
def seats (s : StreamState σ) : List Coord :=
  (Table.values s.regions).map (·.center)

/-- The published centers are those of the tracked regions. -/
def Centered (s : StreamState σ) : Prop := s.centers = Coord.sorted s.seats

theorem centered_publishCenters (s : StreamState σ) :
    s.publishCenters.Centered := by
  unfold publishCenters
  simp only
  split
  · next h => exact h.symm
  · rfl

end StreamState

/-- Neither have regions moved nor centers been published. -/
structure Unmoved {σ : Type} (s t : StreamState σ) : Prop where
  seats : t.seats = s.seats
  centers : t.centers = s.centers

namespace Unmoved

variable {σ : Type} {setup : Setup σ} {s t u : StreamState σ}

protected theorem refl (s : StreamState σ) : Unmoved s s := ⟨rfl, rfl⟩

protected theorem trans (h : Unmoved s t) (h' : Unmoved t u) : Unmoved s u :=
  ⟨h'.seats.trans h.seats, h'.centers.trans h.centers⟩

theorem centered (h : Unmoved s t) (hs : s.Centered) : t.Centered := by
  rw [StreamState.Centered, h.seats, h.centers]
  exact hs

theorem of_regions (hregions : t.regions = s.regions)
    (hcenters : t.centers = s.centers) : Unmoved s t :=
  ⟨by rw [StreamState.seats, StreamState.seats, hregions], hcenters⟩

theorem foldl {α : Type} {f : StreamState σ → α → StreamState σ}
    (hf : ∀ s a, Unmoved s (f s a)) (as : List α) (s : StreamState σ) :
    Unmoved s (as.foldl f s) :=
  List.foldlRecOn as f (.refl s) fun t ht a _ => ht.trans (hf t a)

theorem updateRegion {f : Interest → Interest × List Callback}
    (hf : ∀ i, (f i).1.center = i.center) (id : ObserverId)
    (s : StreamState σ) : Unmoved s (s.updateRegion id f) := by
  cases hi : Table.get? s.regions id with
  | none =>
    rw [StreamState.updateRegion_of_untracked hi]
    exact .refl s
  | some i =>
    rw [StreamState.updateRegion_of_tracked hi,
      Table.adjust_const hi fun i => (f i).1]
    exact ⟨Table.map_values_adjust hf s.regions id, rfl⟩

theorem updateRegions {f : Interest → Interest × List Callback}
    (hf : ∀ i, (f i).1.center = i.center) (s : StreamState σ) :
    Unmoved s (s.updateRegions f) :=
  foldl (fun s id => updateRegion hf id s) _ s

theorem reportReady (id : ObserverId) (cs : List Coord) (s : StreamState σ) :
    Unmoved s (Provider.reportReady id cs s) := by
  refine foldl ?_ cs s
  intro s c
  split
  · exact updateRegion (Interest.center_chunkReady c) id s
  · exact .refl s

theorem drainSignals (s : StreamState σ) :
    Unmoved s (Provider.drainSignals s) := by
  have hpublish (s : StreamState σ) (c : Coord) :
      Unmoved s (Provider.publishReady c s) := by
    have hsent : Unmoved s (s.record (.sent (.ready c))) := .of_regions rfl rfl
    unfold Provider.publishReady
    simp only
    split
    · exact hsent.trans (updateRegions (Interest.center_chunkReady c) _)
    · exact hsent
  have hnone : Unmoved s { s with signals := [] } := .of_regions rfl rfl
  exact hnone.trans (foldl hpublish s.signals _)

theorem evict (c : Coord) (s : StreamState σ) :
    Unmoved s (Eviction.evict setup c s).2 := by
  rcases Eviction.evict_spec setup c s with
    ⟨t, hnote, hevict, -⟩ | ⟨r, t, -, -, -, -, ht, hevict⟩
  · rw [hevict, hnote.frame]
    exact .of_regions rfl rfl
  · rw [hevict, ht]
    exact .of_regions rfl rfl

theorem compact (s : StreamState σ) :
    Unmoved s (Provider.compact setup s) := by
  have hswept : Unmoved s (sweptState setup s) :=
    Eviction.sweep_preserve (P := Unmoved s)
      (fun _ _ _ h => h.trans (.of_regions rfl rfl))
      (fun t c h => h.trans (evict c t)) (.refl s)
  have htold (s : StreamState σ) (c : Coord) :
      Unmoved s (Eviction.notifyUnloaded c s) :=
    (updateRegions (Interest.center_chunkUnloaded c) s).trans
      (.of_regions rfl rfl)
  exact hswept.trans (foldl htold _ _)

end Unmoved

variable {σ : Type} {setup : Setup σ} {p q : Provider σ} {s t : Session σ}

/-- No step of the worker moves the centers. -/
theorem Provider.priority_work (h : p.work? setup = some q) :
    Production.priority q.state = Production.priority p.state := by
  obtain ⟨t, queue, u, completed, failed, -, hnote, rfl⟩ := work?_spec h
  have hrun := Production.priority_run setup p.pipeline.cancelled t p.state
  exact (Production.priority_of_annotated hnote).trans hrun

namespace Unmoved

theorem of_requested (h : Provider.Requested p q) :
    Unmoved p.state q.state := by
  rw [h.frame]
  exact .of_regions rfl rfl

theorem serve (hp : Claims p) (id : ObserverId) (i : Interest)
    (lacking : Bool) :
    Unmoved p.state (Provider.serve setup id i lacking p).state := by
  have hreport := reportReady id i.needed p.state
  have hclaims : Claims (p.modifyState (Provider.reportReady id i.needed)) :=
    hp.of_sameStock (SameStock.reportReady id i.needed p.state)
  have hrequest := of_requested
    (Provider.requestBox_spec setup hclaims (i.expanded .production)).1
  have hlower (q : Provider σ) : Unmoved q.state
      (q.modifyState (·.updateRegion id fun i => (i.setUpToDate, []))).state :=
    updateRegion (f := fun i => (i.setUpToDate, [])) (fun _ => rfl) id q.state
  cases lacking with
  | false =>
    exact hreport.trans
      (hlower (p.modifyState (Provider.reportReady id i.needed)))
  | true => exact hreport.trans (hrequest.trans (hlower _))

theorem work (h : p.work? setup = some q) : Unmoved p.state q.state :=
  .of_regions (Provider.work?_frame h).1
    (congrArg Priority.centers (Provider.priority_work h))

end Unmoved

/-! ## Acts -/

namespace StreamState.Centered

theorem start {world : String} {workers : Nat} {far : σ}
    (h : Provider.start setup world workers far = .ok p) :
    p.state.Centered := by
  have hcenters : p.state.centers = [] :=
    congrArg StreamState.centers (Provider.start_spec h).1.frame
  have hseats : p.state.seats = [] := by
    rw [seats, Provider.regions_start h]
    rfl
  rw [Centered, hcenters, hseats]
  exact List.mergeSort_nil.symm

theorem update (p : Provider σ) (positions : ObserverId → Option Coord) :
    (p.update setup positions).state.Centered := by
  have hpublished := centered_publishCenters
    (p.followObservers setup positions).state
  exact ((Unmoved.drainSignals _).trans (Unmoved.compact _)).centered hpublished

theorem addRelevance (hp : Claims p) (hs : p.state.Centered) (id : ObserverId)
    (position : Option Coord) (d : UInt32) (l : Bool) :
    (p.addRelevance setup id position d l).2.state.Centered := by
  cases hnew : Table.contains p.state.regions id with
  | true =>
    rw [Provider.addRelevance_of_tracked hnew]
    exact (Unmoved.updateRegion (Interest.center_setDistance d) id _).centered
      hs
  | false =>
    cases position with
    | none =>
      rw [Provider.addRelevance_of_lost hnew]
      exact hs
    | some c =>
      have hwelcome : (p.welcome id (.seenAt id c d l)).state.Centered :=
        centered_publishCenters _
      have hclaims : Claims (p.welcome id (.seenAt id c d l)) :=
        hp.of_sameStock ((SameStock.regions _ _).trans
          (SameStock.publishCenters _))
      rw [Provider.addRelevance_eq hnew]
      exact (Unmoved.serve hclaims id _ true).centered hwelcome

theorem removeRelevance (hs : p.state.Centered) (id : ObserverId) :
    (p.removeRelevance id).state.Centered := by
  unfold Provider.removeRelevance
  split
  · exact centered_publishCenters _
  · exact hs

theorem dispose (hs : p.state.Centered) :
    (p.dispose setup).state.Centered := by
  cases hdisposed : p.disposed with
  | true => rwa [Provider.dispose_of_disposed hdisposed]
  | false =>
    rw [Provider.dispose_frame hdisposed setup]
    exact hs

theorem step (hp : Claims s.provider) (hs : s.provider.state.Centered)
    (a : Act) : (s.step setup a).provider.state.Centered := by
  by_cases hhandling : a.isHandling = true
  · obtain ⟨t, ht, h⟩ := Session.handled_step setup hhandling s
    rw [h]
    have hregions := congrArg StreamState.regions ht.frame
    have hcenters := congrArg StreamState.centers ht.frame
    have hsame : Unmoved s.provider.state t := .of_regions hregions hcenters
    exact hsame.centered hs
  cases a with
  | move id position => exact hs
  | track id d l => exact hs.addRelevance hp id (s.position id) d l
  | setDistance id d =>
    exact (Unmoved.updateRegion (Interest.center_setDistance d) id _).centered
      hs
  | untrack id => exact hs.removeRelevance id
  | update => exact .update s.provider s.position
  | request c =>
    have hrequested := Provider.Requested.requestChunk setup hp c
    exact (Unmoved.of_requested hrequested).centered hs
  | requestBox b =>
    have hrequested := (Provider.requestBox_spec setup hp b).1
    exact (Unmoved.of_requested hrequested).centered hs
  | markReady c => exact hs
  | work =>
    show ((s.provider.work? setup).getD s.provider).state.Centered
    cases h : s.provider.work? setup with
    | none => exact hs
    | some q => exact (Unmoved.work h).centered hs
  | keep c =>
    simp only [Session.step, Session.keep]
    split <;> exact hs
  | dispose => exact hs.dispose
  | _ => simp [Act.isHandling] at hhandling

end StreamState.Centered

/-- Another order of the regions moves none of them. -/
theorem StreamState.Centered.reorder {s t : StreamState σ} (hs : s.Centered)
    (hobservers : (Table.keys s.regions).Nodup) (h : s.Reordered t) :
    t.Centered := by
  have hseats : t.seats.Perm s.seats :=
    h.regions.map_values hobservers fun i j hij => hij.center
  have hcenters : t.centers = s.centers := by rw [h.frame]
  rw [Centered, hcenters, Coord.sorted_of_perm hseats]
  exact hs

theorem StreamState.Centered.next (hs : s.provider.state.Centered)
    (hregular : Regular s.provider) (h : Session.Next setup s t) :
    t.provider.state.Centered := by
  cases h with
  | cancel => exact hs
  | reorder u h => exact hs.reorder hregular.observers h
  | act a => exact hs.step hregular.claims a

namespace Recentered

theorem of_reordered {s t : StreamState σ} (h : s.Reordered t) :
    Recentered s t := by
  have hepoch : t.epoch = s.epoch := by rw [h.frame]
  have hcenters : t.centers = s.centers := by rw [h.frame]
  exact .of_eq hepoch hcenters

theorem advance (hp : Claims p) (h : Provider.Advance setup p q) :
    Recentered p.state q.state := by
  cases h with
  | beside h => exact h.recentered
  | request c =>
    rw [(Provider.Requested.requestChunk setup hp c).frame]
    exact .of_eq rfl rfl
  | work h =>
    have hsame := Provider.priority_work h
    exact .of_eq (congrArg Priority.epoch hsame)
      (congrArg Priority.centers hsame)

theorem advances (hp : Claims p) (h : Provider.Advances setup p q) :
    Recentered p.state q.state :=
  hp.preserve h (P := fun q => Recentered p.state q.state)
    (fun _ _ hq hstep hsame => hsame.trans (advance hq hstep)) (.refl _)

/-- Whatever happens, the centers stay or the epoch moves on. -/
theorem next (hs : Claims s.provider) (h : Session.Next setup s t) :
    Recentered s.provider.state t.provider.state := by
  cases h with
  | cancel => exact .of_eq rfl rfl
  | reorder u h => exact of_reordered h
  | act a =>
    by_cases hcall : a.isCall = true
    · exact advances hs (Session.advances_step setup hcall s)
    by_cases hhandling : a.isHandling = true
    · obtain ⟨t, ht, h⟩ := Session.handled_step setup hhandling s
      have hepoch := congrArg StreamState.epoch ht.frame
      have hcenters := congrArg StreamState.centers ht.frame
      have hsame : Recentered s.provider.state t := .of_eq hepoch hcenters
      rw [h]
      exact hsame
    cases a with
    | update =>
      have hfollow := advances hs
        (Provider.advances_publishing setup s.position s.provider)
      exact hfollow.trans ((drainSignals _).trans (compact _))
    | markReady c => exact .of_eq rfl rfl
    | dispose =>
      show Recentered _ (s.provider.dispose setup).state
      cases hdisposed : s.provider.disposed with
      | true =>
        rw [Provider.dispose_of_disposed hdisposed]
        exact .refl _
      | false =>
        rw [Provider.dispose_frame hdisposed setup]
        exact .of_eq rfl rfl
    | _ => simp [Act.isCall, Act.isHandling] at hcall hhandling

theorem reach (hs : Claims s.provider)
    (h : Relation.ReflTransGen (Session.Next setup) s t) :
    Recentered s.provider.state t.provider.state := by
  have hboth : Claims t.provider
      ∧ Recentered s.provider.state t.provider.state := by
    induction h with
    | refl => exact ⟨hs, .refl _⟩
    | tail _ hstep ih =>
      exact ⟨ih.1.of_next hstep, ih.2.trans (next ih.1 hstep)⟩
  exact hboth.2

end Recentered

namespace Ranked

theorem dispose (hp : Ranked p) : Ranked (p.dispose setup) := by
  have hstate : Recentered p.state (p.dispose setup).state := by
    cases hdisposed : p.disposed with
    | true =>
      rw [Provider.dispose_of_disposed hdisposed]
      exact .refl _
    | false =>
      rw [Provider.dispose_frame hdisposed setup]
      exact .of_eq rfl rfl
  have hinformed := hp.informed.mono fun _ => hstate.knows
  rcases p.queue_dispose setup with hqueue | hqueue
  · exact ⟨hqueue ▸ hp.marked, hqueue ▸ hp.scored, hqueue ▸ hinformed⟩
  · exact ⟨hqueue ▸ TaskQueue.marked_close, hqueue ▸ TaskQueue.scored_close,
      hqueue ▸ hinformed⟩

theorem next (hs : Ranked s.provider) (hclaims : Claims s.provider)
    (h : Session.Next setup s t) : Ranked t.provider := by
  cases h with
  | cancel => exact ⟨hs.marked, hs.scored, hs.informed⟩
  | reorder u h =>
    exact hs.modifyState (f := fun _ => u) (Recentered.of_reordered h)
  | act a =>
    by_cases ha : a = .dispose
    · rw [ha]
      exact hs.dispose
    · exact hs.step hclaims ha

end Ranked

/-- At every moment of a session the published centers are the sorted centers of
the tracked regions.  From one moment to a later one the epoch does not fall,
and while it stays the centers stay.  A step of the worker runs a task that is
as near to the centers of the regions as any that waits. -/
theorem nearest_region_first {world : String} {workers : Nat} {far : σ}
    (hstart : Provider.start setup world workers far = .ok p)
    (hrun : Relation.ReflTransGen (Session.Next setup) (.ofProvider p) s) :
    let seats := (Table.values s.provider.state.regions).map (·.center)
    s.provider.state.centers.Perm seats
      ∧ s.provider.state.centers.Pairwise (fun a b => a.le b = true)
      ∧ (∀ t, Relation.ReflTransGen (Session.Next setup) s t →
        s.provider.state.epoch ≤ t.provider.state.epoch
          ∧ (t.provider.state.epoch = s.provider.state.epoch →
            t.provider.state.centers = s.provider.state.centers))
      ∧ ∀ q, s.provider.work? setup = some q →
        ∃ t queue, t ∈ s.provider.pipeline.queue.tasks
          ∧ (∀ u ∈ s.provider.pipeline.queue.tasks,
            score seats t.coord ≤ score seats u.coord)
          ∧ s.provider.pipeline.queue.tasks.Perm (t :: queue.tasks)
          ∧ q.pipeline = Pipeline.runTask (Production.handler setup) t
            { s.provider.pipeline with queue := queue } := by
  intro seats
  obtain ⟨hcentered, hranked⟩ : s.provider.state.Centered
      ∧ Ranked s.provider := by
    induction hrun with
    | refl => exact ⟨.start hstart, .start hstart⟩
    | tail hbefore hstep ih =>
      have hregular := Regular.reach hstart hbefore
      exact ⟨ih.1.next hregular hstep, ih.2.next hregular.claims hstep⟩
  have hclaims := (Regular.reach hstart hrun).claims
  have hperm : s.provider.state.centers.Perm seats := by
    rw [hcentered]
    exact Coord.perm_sorted seats
  refine ⟨hperm, ?_, ?_, ?_⟩
  · rw [hcentered]
    exact Coord.pairwise_sorted seats
  · intro t hlater
    rcases Recentered.reach hclaims hlater with h | ⟨hepoch, hcenters⟩
    · exact ⟨Nat.le_of_lt h, fun heq => absurd (heq ▸ h) (Nat.lt_irrefl _)⟩
    · exact ⟨Nat.le_of_eq hepoch.symm, fun _ => hcenters⟩
  · intro q hwork
    obtain ⟨pipeline, hstep, rfl⟩ := Option.map_eq_some_iff.1 hwork
    unfold Pipeline.work? at hstep
    split at hstep
    · cases hstep
    · next t queue hpop =>
      obtain ⟨n, hplaces, hsooner⟩ := TaskQueue.sooner_of_pop? hclaims.ticketed
        hranked.scored hranked.informed (fun x hx => hx.2) hpop
      have htasks := TaskQueue.perm_pop hclaims.ticketed hpop
      refine ⟨t, queue, htasks.mem_iff.2 List.mem_cons_self, ?_, htasks,
        (Option.some.inj hstep).symm⟩
      intro u hu
      rw [← score_of_perm hperm, ← score_of_perm hperm]
      rcases List.mem_cons.1 (htasks.mem_iff.1 hu) with rfl | hu
      · exact Nat.le_refl _
      · rw [← TaskQueue.map_snd_places] at hu
        obtain ⟨b, hb, rfl⟩ := List.mem_map.1 hu
        rcases hsooner b hb with hlt | ⟨heq, -⟩
        · exact Nat.le_of_lt hlt
        · exact Nat.le_of_eq heq

/-- An observer is tracked at the corner of the world and leaves for the origin.
The update that follows it queues tasks while the center is still at the
corner. -/
def Act.leaveCorner : List Act :=
  [.move 1 (some .corner), .track 1 0 false, .move 1 (some .origin), .update]

/-- The worker begins with what is nearest to the origin. -/
theorem nearest_region_first_of_leaveCorner :
    let s := (Session.ofProvider (.plain 64)).run (Setup.plain 64)
      Act.leaveCorner
    s.provider.state.centers = [.origin] ∧ s.provider.state.epoch = 2
      ∧ ∃ q t, s.provider.work? (Setup.plain 64) = some q
        ∧ t ∈ s.provider.pipeline.queue.tasks
        ∧ ∀ u ∈ s.provider.pipeline.queue.tasks,
          score [.origin] t.coord ≤ score [.origin] u.coord := by
  intro s
  have hwork : (s.provider.work? (Setup.plain 64)).isSome = true := by
    decide +kernel
  have hseats : (Table.values s.provider.state.regions).map (·.center)
      = [.origin] := by decide +kernel
  obtain ⟨q, hq⟩ := Option.isSome_iff_exists.1 hwork
  obtain ⟨-, -, -, htakes⟩ := nearest_region_first (s := s) (start_plain 64)
    (Session.reaches_run (Setup.plain 64) _ _)
  obtain ⟨t, queue, ht, hleast, -⟩ := htakes q hq
  rw [hseats] at hleast
  exact ⟨by decide +kernel, by decide +kernel, q, t, hq, ht, hleast⟩

end ChunkStream
