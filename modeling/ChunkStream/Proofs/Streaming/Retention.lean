import ChunkStream.Proofs.Streaming.Announcements
import ChunkStream.Proofs.Streaming.Flags

/-!
# What a region reports stays ready

A region reports a coordinate that is ready and does not ask again.  It may rely
on it: between two sweeps nothing that is complete is lost, and a sweep spares
the neighbours of a footprint, which is all that readiness in the footprint
rests on.  A signal waits from the announcement to the next update, so what is
signalled is ready when the regions are told.

`Ripened` is the part of `Grown` that holds for every generator, also for one
that changes a tag when it fails.
-/

namespace ChunkStream

variable {σ : Type} {setup : Setup σ}

/-! ## The box of a region -/

namespace Interest

variable {i j : Interest}

/-- The box is the footprint that belongs to center and distance. -/
def Fitted (i : Interest) : Prop := i.box = Box.footprint i.center i.distance

theorem fitted_seenAt (id : ObserverId) (c : Coord) (d : UInt32) (l : Bool) :
    (seenAt id c d l).Fitted := rfl

theorem fitted_reshape (i : Interest) : i.reshape.1.Fitted := by
  unfold reshape
  simp only
  split
  · next h => exact h.symm
  · rfl

/-- Taking over a footprint moves nothing. -/
theorem place_reshape (i : Interest) :
    i.reshape.1.center = i.center ∧ i.reshape.1.distance = i.distance := by
  simp only [reshape]
  split <;> exact ⟨rfl, rfl⟩

/-- A new distance is taken over. -/
theorem place_setDistance (d : UInt32) (i : Interest) :
    (i.setDistance d).1.center = i.center
      ∧ (i.setDistance d).1.distance = d := by
  rw [setDistance]
  split
  · next h => exact ⟨rfl, h.symm⟩
  · exact place_reshape { i with distance := d }

/-- A region goes where its observer is, and stays while that is nowhere. -/
theorem place_follow (position : Option Coord) (i : Interest) :
    (i.follow position).1.center = position.getD i.center
      ∧ (i.follow position).1.distance = i.distance := by
  cases position with
  | none => exact ⟨rfl, rfl⟩
  | some c =>
    simp only [follow, Option.getD_some]
    split
    · next h => exact ⟨h.symm, rfl⟩
    · exact place_reshape { i with center := c }

theorem reportAll_spec (cs : List Coord) (i : Interest) :
    ∃ rs, i.reportAll cs = { i with relevant := rs } := by
  induction cs generalizing i with
  | nil => exact ⟨i.relevant, rfl⟩
  | cons d cs ih =>
    obtain ⟨rs, hrs⟩ := ih (i.chunkReady d).1
    refine ⟨rs, hrs.trans ?_⟩
    unfold chunkReady
    split <;> rfl

namespace Fitted

theorem setDistance (hi : i.Fitted) (d : UInt32) :
    (i.setDistance d).1.Fitted := by
  unfold Interest.setDistance
  split
  · exact hi
  · exact fitted_reshape _

theorem follow (hi : i.Fitted) (position : Option Coord) :
    (i.follow position).1.Fitted := by
  cases position with
  | none => exact hi
  | some c =>
    simp only [Interest.follow]
    split
    · exact hi
    · exact fitted_reshape _

theorem adjusted (hi : i.Fitted) (h : Adjusted i j) : j.Fitted := by
  rcases h with rfl | ⟨d, rfl⟩
  · exact hi
  · exact hi.setDistance d

theorem reportAll (hi : i.Fitted) (cs : List Coord) :
    (i.reportAll cs).Fitted := by
  obtain ⟨rs, hrs⟩ := reportAll_spec cs i
  rw [hrs]
  exact hi

theorem withdrawAll (hi : i.Fitted) (cs : List Coord) :
    (i.withdrawAll cs).Fitted := by
  rw [withdrawAll_spec]
  exact hi

theorem served (hi : i.Fitted) (ready : Coord → Bool) :
    (i.served ready).Fitted :=
  hi.reportAll _

theorem attend (hi : i.Fitted) (ready : Coord → Bool)
    (position : Option Coord) : (i.attend ready position).Fitted := by
  unfold Interest.attend
  simp only
  split
  · exact (hi.follow position).served ready
  · exact hi.follow position

end Fitted

end Interest

/-! ## Ripening -/

/-- The second state comes after the first, and nothing complete was lost in
between.  What has been signalled since is ready. -/
structure Ripened (s t : StreamState σ) : Prop where
  aged : WellAged s → WellAged t
  complete : ∀ c, s.isResidentComplete c = true → t.isResidentComplete c = true
  signals : ∀ c ∈ t.signals, c ∈ s.signals ∨ t.isReady c = true

theorem Grown.ripened {s t : StreamState σ} (h : Grown s t) : Ripened s t := by
  refine ⟨h.aged, h.complete, ?_⟩
  intro c hc
  by_cases hold : c ∈ s.signals
  · exact .inl hold
  -- a signal that is new comes from a new announcement
  have hcount := h.signals c
  rw [List.count_eq_zero.2 hold] at hcount
  have hpos := List.count_pos_iff.2 hc
  have hbit := t.announcedBit_le c
  have hfresh : c ∈ t.announced ∧ c ∉ s.announced := by
    unfold StreamState.announcedBit at hcount
    by_cases ht : c ∈ t.announced
    · by_cases hs : c ∈ s.announced
      · simp only [ht, hs, if_true] at hcount
        omega
      · exact ⟨ht, hs⟩
    · simp only [ht, if_false] at hcount
      omega
  rcases h.fresh c hfresh.1 with hmem | hready
  · exact absurd hmem hfresh.2
  · exact .inr hready

namespace Ripened

variable {s t u : StreamState σ} {p q : Provider σ}

theorem isReady (h : Ripened s t) {c : Coord} (hc : s.isReady c = true) :
    t.isReady c = true :=
  StreamState.isReady_mono h.complete hc

protected theorem trans (h : Ripened s t) (h' : Ripened t u) : Ripened s u where
  aged hs := h'.aged (h.aged hs)
  complete c hc := h'.complete c (h.complete c hc)
  signals c hc := by
    rcases h'.signals c hc with hc | hc
    · exact (h.signals c hc).imp_right h'.isReady
    · exact .inr hc

theorem of_sameStock (h : SameStock s t) : Ripened s t :=
  (Grown.of_sameStock h).ripened

/-- Announcing around a coordinate signals only what is ready. -/
theorem announceIfComplete (c : Coord) (s : StreamState σ) :
    Ripened s (Production.announceIfComplete c s) :=
  (Grown.announceIfComplete id (fun _ => id) (fun _ _ => rfl) id rfl rfl
    fun _ => rfl).ripened

/-- An incomplete chunk may be replaced by whatever finishing makes of it. -/
theorem adjustChunk {c : Coord} {chunk : Chunk}
    (hchunk : s.chunk? c = some chunk) (hincomplete : chunk.isComplete = false)
    (f : Chunk → Chunk) : Ripened s (s.adjustChunk c f) := by
  refine ⟨fun hs => hs.adjustChunk c f, ?_, fun _ => .inl⟩
  intro n hn
  by_cases hnc : n = c
  · subst hnc
    rw [StreamState.isResidentComplete_eq, hchunk, Option.any_some,
      hincomplete] at hn
    cases hn
  · rwa [StreamState.isResidentComplete_adjustChunk, if_neg hnc]

theorem review (setup : Setup σ) (c : Coord) (s : StreamState σ) :
    Ripened s (Production.review setup c s).state := by
  rcases Production.review_cases setup c s with
    ⟨reviews, -, h⟩ | h | ⟨chunk, hchunk, hincomplete, -, -, u, hnote, hend⟩
  · rw [h]
    exact of_sameStock (.refl s)
  · rw [h]
    exact announceIfComplete c s
  · have hsame := of_sameStock hnote.sameStock
    have hchunk' : u.chunk? c = some chunk :=
      (StreamState.chunk?_congr hnote.sameStock.near c).trans hchunk
    rcases hend with ⟨next, completion, -, h⟩ | ⟨next, cause, failure, -, h⟩
    · rw [h]
      exact hsame.trans ((adjustChunk hchunk' hincomplete _).trans
        (announceIfComplete c _))
    · rw [h]
      exact hsame.trans (adjustChunk hchunk' hincomplete fun _ => next)

theorem work (h : p.work? setup = some q) : Ripened p.state q.state := by
  obtain ⟨t, queue, u, completed, failed, -, hnote, rfl⟩ :=
    Provider.work?_spec h
  have hrun : Ripened
      p.state (Production.run setup p.pipeline.cancelled t p.state).state := by
    cases t with
    | review c => exact review setup c p.state
    | load c => exact (Grown.produce _ _ p.state).ripened
    | generate c => exact (Grown.produce _ _ p.state).ripened
  exact hrun.trans (of_sameStock hnote.sameStock)

theorem advance (hp : Claims p) (h : Provider.Advance setup p q) :
    Ripened p.state q.state := by
  cases h with
  | beside h => exact of_sameStock h
  | request c =>
    have hframe := (Provider.Requested.requestChunk setup hp c).frame
    rw [hframe]
    exact ⟨fun hs => hs.of_near rfl rfl, fun _ => id, fun _ => .inl⟩
  | work h => exact work h

theorem advances (hp : Claims p) (h : Provider.Advances setup p q) :
    Ripened p.state q.state :=
  hp.preserve h (P := fun q => Ripened p.state q.state)
    (fun _ _ hq hstep hripened => hripened.trans (advance hq hstep))
    (of_sameStock (.refl p.state))

end Ripened

/-! ## The invariant -/

/-- Acts of a session that goes on, in which nobody outside changes a tag or
marks a coordinate. -/
def Act.isQuiet : Act → Bool
  | .markReady _ => false
  | a => a.isTame

theorem Act.isTame_of_isQuiet {a : Act} (ha : a.isQuiet = true) :
    a.isTame = true := by
  cases a with
  | markReady c => cases ha
  | _ => exact ha

theorem Ripened.step (setup : Setup σ) {s : Session σ}
    (hs : Claims s.provider) (haged : WellAged s.provider.state) {a : Act}
    (ha : a.isQuiet = true) (hupdate : a ≠ .update) :
    Ripened s.provider.state (s.step setup a).provider.state := by
  by_cases hcall : a.isCall = true
  · exact advances hs (Session.advances_step setup hcall s)
  by_cases hhandling : a.isHandling = true
  · obtain ⟨t, ht, h⟩ := Session.handled_step_of_isTame setup hhandling
      (Act.isTame_of_isQuiet ha) haged
    rw [h]
    exact (Grown.of_handled ht).ripened
  cases a with
  | update => exact absurd rfl hupdate
  | markReady c => cases ha
  | dispose => cases ha
  | _ => simp [Act.isCall, Act.isHandling] at hcall hhandling

/-- Regions have the boxes that belong to them, and what they report is ready,
as is what they are going to be told. -/
structure Steady (p : Provider σ) : Prop where
  claims : Claims p
  aged : WellAged p.state
  keys : (Table.keys p.state.regions).Nodup
  waiting : ∀ c ∈ p.state.signals, p.state.isReady c = true
  fitted : ∀ id i, Table.get? p.state.regions id = some i → i.Fitted
  reports : ∀ id i, Table.get? p.state.regions id = some i →
    i.Reports (p.state.isReady · = true)

theorem WellAged.compact {s : StreamState σ} (hs : WellAged s) :
    WellAged (Provider.compact setup (Provider.drainSignals s)) := by
  have hdrain := Published.drainSignals s
  have hswept := (Eviction.sweep_spec setup (Provider.drainSignals s)).1
  have hnotify := sameStock_compact setup (Provider.drainSignals s)
  have hsublist : (sweptState setup (Provider.drainSignals s)).near.Sublist
      (Provider.drainSignals s).near := by
    rw [sweptState, hswept.near]
    exact List.filter_sublist
  exact ((hs.of_near hdrain.near hdrain.nextAge).of_sublist hsublist
    hswept.nextAge).of_near hnotify.near hnotify.nextAge

namespace Steady

variable {s : Session σ} {a : Act} {id : ObserverId} {i : Interest}

/-- What waits to be published when an update has followed the observers is
ready. -/
theorem waiting_publishing (hs : Steady s.provider) (setup : Setup σ) :
    ∀ c ∈ (s.provider.publishing setup s.position).signals,
      (s.provider.publishing setup s.position).isReady c = true := by
  intro c hc
  have hripened := Ripened.advances hs.claims
    (Provider.advances_publishing setup s.position s.provider)
  rcases hripened.signals c hc with hold | hready
  · exact hripened.isReady (hs.waiting c hold)
  · exact hready

/-- A region reports only what is ready also when it has been attended to. -/
theorem reports_attend (hs : Steady s.provider)
    (hi : Table.get? s.provider.state.regions id = some i) :
    (i.attend s.provider.state.isReady (s.position id)).Reports
      ((s.provider.publishing setup s.position).isReady · = true) := by
  have hripened := Ripened.advances hs.claims
    (Provider.advances_publishing setup s.position s.provider)
  have hattended := (hs.reports id i hi).attend (fun _ hc => hc)
    (s.position id)
  exact hattended.mono fun c _ => hripened.isReady

theorem step_update (hs : Steady s.provider) :
    Steady (s.step setup .update).provider := by
  have hripened := Ripened.advances hs.claims
    (Provider.advances_publishing setup s.position s.provider)
  have hkeys := Session.nodup_keys_publishing setup hs.claims hs.keys
  refine ⟨hs.claims.step .update, (hripened.aged hs.aged).compact,
    Session.nodup_keys_update hs.claims hs.keys, ?_, ?_, ?_⟩
  · intro c hc
    rw [Session.signals_update] at hc
    cases hc
  · intro id i' hi'
    obtain ⟨i, hi, -, rfl⟩ :=
      Session.exists_region_of_update hs.claims hs.keys hi'
    exact (((hs.fitted id i hi).attend _ _).reportAll _).withdrawAll _
  · intro id i' hi'
    obtain ⟨i, hi, hattended, rfl⟩ :=
      Session.exists_region_of_update hs.claims hs.keys hi'
    have hspared := StreamState.spared_sweep setup hkeys hattended
    apply StreamState.reports_concluded (hs.reports_attend hi)
    · exact fun c hc _ => hs.waiting_publishing setup c hc
    · intro c hc hready
      exact (isReady_compact setup _ c).2 ⟨hready, hspared c hc⟩

theorem step_of_ne (hs : Steady s.provider) (ha : a.isQuiet = true)
    (hupdate : a ≠ .update) : Steady (s.step setup a).provider := by
  have hripened := Ripened.step setup hs.claims hs.aged ha hupdate
  have hdispose : a ≠ .dispose := by
    rintro rfl
    cases ha
  refine ⟨hs.claims.step a, hripened.aged hs.aged,
    Session.nodup_keys_step hs.claims hs.keys hupdate hdispose, ?_, ?_, ?_⟩
  · intro c hc
    rcases hripened.signals c hc with hold | hready
    · exact hripened.isReady (hs.waiting c hold)
    · exact hready
  · intro id i' hi'
    rcases Session.region_step hs.claims hupdate hdispose hi' with
      ⟨-, i, hi, hchange⟩ | ⟨-, c, d, l, -, rfl, -, -⟩
    · exact (hs.fitted id i hi).adjusted hchange
    · exact (Interest.fitted_seenAt id c d l).served _
  · intro id i' hi'
    rcases Session.region_step hs.claims hupdate hdispose hi' with
      ⟨-, i, hi, hchange⟩ | ⟨-, c, d, l, -, rfl, -, -⟩
    · have hkept := (hs.reports id i hi).mono fun c _ => hripened.isReady
      exact hkept.reshaped hchange.reshaped
    · exact (Interest.reports_seenAt id c d l).served fun c =>
        hripened.isReady

theorem step (hs : Steady s.provider) (ha : a.isQuiet = true) :
    Steady (s.step setup a).provider := by
  by_cases hupdate : a = .update
  · subst hupdate
    exact hs.step_update
  · exact hs.step_of_ne ha hupdate

theorem start {p : Provider σ} {world : String} {workers : Nat} {far : σ}
    (hstart : Provider.start setup world workers far = .ok p) : Steady p := by
  have hsame := (Provider.start_spec hstart).1.sameStock
  refine ⟨Claims.start hstart, ?_, Provider.nodup_keys_regions_start hstart, ?_,
    Provider.forall_region_start hstart, Provider.forall_region_start hstart⟩
  · exact (Announcements.start far).aged.of_near hsame.near hsame.nextAge
  · intro c hc
    rw [hsame.signals] at hc
    cases hc

theorem run (hs : Steady s.provider) {acts : List Act}
    (hacts : ∀ a ∈ acts, a.isQuiet = true) :
    Steady (s.run setup acts).provider :=
  Session.run_preserve (P := fun t => Steady t.provider) hs
    fun a ha _ ht => ht.step (hacts a ha)

/-- The sweep of an update takes no neighbour of what the regions report by
then. -/
theorem not_mem_sweep (hs : Steady s.provider) (setup : Setup σ)
    (hi : Table.get? (s.provider.sweeping setup s.position).regions id = some i)
    {c n : Coord} (hc : c ∈ i.relevant)
    (hn : (Box.neighborhood c).contains n = true) :
    n ∉ (Eviction.sweep setup (s.provider.sweeping setup s.position)).1 := by
  have hkeys := Session.nodup_keys_publishing setup hs.claims hs.keys
  rw [Provider.sweeping, Provider.get?_drainSignals hkeys] at hi
  obtain ⟨j, hj, rfl⟩ := Option.map_eq_some_iff.1 hi
  have hattended := (Session.region_update setup hs.claims hs.keys id).1
  rw [hj] at hattended
  obtain ⟨i, hold, rfl⟩ := Option.map_eq_some_iff.1 hattended.symm
  have hwaiting : ∀ d ∈ (s.provider.publishing setup s.position).signals.filter
      (s.provider.publishing setup s.position).isResident,
      (s.provider.publishing setup s.position).isReady d = true := fun d hd =>
    hs.waiting_publishing setup d (List.mem_filter.1 hd).1
  have hin := ((hs.reports_attend hold).reportAll hwaiting c hc).1
  rw [Interest.box_reportAll] at hin
  exact StreamState.spared_sweep setup hkeys hj c hin n hn

end Steady

/-- After every run that goes on and in which nobody outside changes a
completion tag or marks a coordinate, what a region reports lies in the
footprint of the region, is resident and is ready; and the sweep of an update
takes neither what the regions report by then nor any neighbour of it. -/
theorem reported_stays_ready {p : Provider σ} {world : String} {workers : Nat}
    {far : σ} (hstart : Provider.start setup world workers far = .ok p)
    {acts : List Act} (hacts : ∀ a ∈ acts, a.isQuiet = true) :
    let s := (Session.ofProvider p).run setup acts
    (∀ id i, Table.get? s.provider.state.regions id = some i →
        i.box = Box.footprint i.center i.distance
          ∧ ∀ c ∈ i.relevant, i.box.contains c = true
            ∧ s.provider.state.isResident c = true
            ∧ s.provider.state.isReady c = true)
      ∧ ∀ id i, Table.get? (s.provider.sweeping setup s.position).regions id
          = some i →
        ∀ c ∈ i.relevant, ∀ n, (Box.neighborhood c).contains n = true →
          n ∉ (Eviction.sweep setup (s.provider.sweeping setup s.position)).1 := by
  intro s
  have hs : Steady s.provider :=
    Steady.run (s := .ofProvider p) (Steady.start hstart) hacts
  constructor
  · intro id i hi
    refine ⟨hs.fitted id i hi, ?_⟩
    intro c hc
    obtain ⟨hin, hready⟩ := hs.reports id i hi c hc
    exact ⟨hin, StreamState.isResident_of_isReady hready, hready⟩
  · intro id i hi c hc n hn
    exact hs.not_mem_sweep setup hi hc hn

/-- The neighbourhood of the corner and the origin are made, and an observer is
tracked at the corner. -/
def Act.settleCorner : List Act :=
  [.requestBox (Box.neighborhood .corner), .request .origin]
    ++ List.replicate 5 .work ++ [.move 1 (some .corner), .track 1 0 true]

/-- With a budget of no chunks an update evicts the origin, while what the
region reports is spared. -/
theorem reported_stays_ready_of_settleCorner :
    let s := (Session.ofProvider (.plain 0)).run (Setup.plain 0)
      (Act.settleCorner ++ [.update])
    s.provider.state.isResident .origin = false
      ∧ ∃ i, Table.get? s.provider.state.regions 1 = some i
        ∧ .corner ∈ i.relevant ∧ s.provider.state.isReady .corner = true := by
  intro s
  have hsplit : s =
      ((Session.ofProvider (.plain 0)).run (Setup.plain 0)
        Act.settleCorner).step (Setup.plain 0) .update :=
    Session.run_concat _ _ _
  rw [Session.step_update_of_pairwise (by decide +kernel)] at hsplit
  have hlast : s.provider.state.isResident .origin = false
      ∧ (Table.get? s.provider.state.regions 1).any (fun i =>
        decide (.corner ∈ i.relevant)) = true := by
    rw [hsplit]
    decide +kernel
  obtain ⟨hgone, hreported⟩ := hlast
  obtain ⟨i, hi, hreported⟩ := (Option.any_eq_true _ _).1 hreported
  rw [decide_eq_true_eq] at hreported
  have hacts : ∀ a ∈ Act.settleCorner ++ [.update], a.isQuiet = true := by
    decide
  have hstays := (reported_stays_ready (start_plain 0) hacts).1 1 i hi
  exact ⟨hgone, i, hi, hreported, (hstays.2 .corner hreported).2.2⟩

end ChunkStream
