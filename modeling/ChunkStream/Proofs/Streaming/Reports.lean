import ChunkStream.Proofs.Streaming.Flags
import ChunkStream.Proofs.Streaming.ReadyEvents

/-!
# What regions are told

A region learns that a coordinate is ready when it is attended to, and from the
signals that updates publish.  A coordinate is stale when it has been announced
and is not ready: it lost a neighbour to a sweep, and what is announced is not
signalled again.  A region that is attended to at such a moment can miss the
coordinate, for the neighbour may come back while nothing makes the region look
again.  For every other coordinate the two ways together miss nothing.
-/

namespace ChunkStream

variable {σ : Type} {setup : Setup σ} {s t u : StreamState σ}
  {i j : Interest} {c : Coord}

/-- The coordinate has been announced and has lost its readiness since. -/
def StreamState.isStale (s : StreamState σ) (c : Coord) : Bool :=
  decide (c ∈ s.announced) && !s.isReady c

theorem StreamState.isStale_iff :
    s.isStale c = true ↔ c ∈ s.announced ∧ s.isReady c = false := by
  simp [isStale]

/-- Sparing a footprint leaves readiness in it as it was. -/
theorem Swept.isReady_iff_of_spared {gone : List Coord}
    (h : Swept setup gone s t)
    (hspared : i.Spared gone) (hc : i.box.contains c = true) :
    t.isReady c = true ↔ s.isReady c = true := by
  rw [h.isReady]
  exact ⟨fun hready => hready.1, fun hready => ⟨hready, hspared c hc⟩⟩

theorem Announcements.isReady_of_mem_signals (hs : Announcements (fun _ => 0) s)
    (hc : c ∈ s.signals) : s.isReady c = true := by
  have hpos := List.count_pos_iff.2 hc
  have honce := hs.once c
  exact (hs.pending c (by omega)).2

/-! ## What a clean region has heard -/

/-- What a clean region knows, when its flag was lowered in the state `t`: of
what was stale then it will not hear, and all else in its footprint that is
ready it has reported or will hear of. -/
structure Heard (t s : StreamState σ) (i : Interest) : Prop where
  stale : ∀ c, i.box.contains c = true → t.isStale c = true →
    c ∈ s.announced ∧ c ∉ s.signals ∧ c ∉ i.relevant
  fresh : ∀ c, i.box.contains c = true → t.isStale c = false →
    (s.isReady c = true → c ∈ i.relevant ∨ c ∈ s.signals)
      ∧ (c ∈ s.announced → s.isReady c = true)

namespace Heard

/-- A region that is served reports all that is ready in its footprint. -/
theorem served (hs : Announcements (fun _ => 0) s)
    (hi : i.Reports (s.isReady · = true)) : Heard s s (i.served s.isReady) := by
  have hreports := hi.served fun _ => id
  refine ⟨?_, fun c hc hstale => ⟨?_, ?_⟩⟩
  · intro c hc hstale
    obtain ⟨hannounced, hready⟩ := StreamState.isStale_iff.1 hstale
    refine ⟨hannounced, ?_, ?_⟩
    · intro hmem
      rw [hs.isReady_of_mem_signals hmem] at hready
      cases hready
    · intro hmem
      rw [(hreports c hmem).2] at hready
      cases hready
  · intro hready
    rw [Interest.box_served] at hc
    exact .inl (Interest.mem_relevant_served.2 (.inr ⟨hc, hready⟩))
  · intro hmem
    by_contra hready
    rw [StreamState.isStale_iff.2 ⟨hmem, by simpa using hready⟩] at hstale
    cases hstale

theorem congr (hi : Heard t s i) (hnear : u.near = s.near)
    (hannounced : u.announced = s.announced)
    (hsignals : u.signals = s.signals) : Heard t u i := by
  constructor
  · intro c hc hstale
    rw [hannounced, hsignals]
    exact hi.stale c hc hstale
  · intro c hc hstale
    rw [hannounced, hsignals, StreamState.isReady_congr hnear]
    exact hi.fresh c hc hstale

theorem sameView (hi : Heard t s i) (h : Interest.SameView i j) :
    Heard t s j := by
  constructor
  · intro c hc hstale
    rw [h.box] at hc
    rw [h.relevant]
    exact hi.stale c hc hstale
  · intro c hc hstale
    rw [h.box] at hc
    rw [h.relevant]
    exact hi.fresh c hc hstale

/-- What becomes ready is signalled, unless it has been announced before; and
then it was ready before. -/
theorem grown (hi : Heard t s i) (hu : Announcements (fun _ => 0) u)
    (h : Grown s u) : Heard t u i := by
  constructor
  · intro c hc hstale
    obtain ⟨hannounced, hsignals, hrelevant⟩ := hi.stale c hc hstale
    have hcount := h.signals c
    rw [StreamState.announcedBit, StreamState.announcedBit, if_pos hannounced,
      if_pos (h.announced c hannounced),
      List.count_eq_zero.2 hsignals] at hcount
    exact ⟨h.announced c hannounced, List.count_eq_zero.1 (by omega), hrelevant⟩
  · intro c hc hstale
    obtain ⟨htold, hready⟩ := hi.fresh c hc hstale
    have hnew (hmem : c ∈ u.announced) (hold : c ∉ s.announced) :
        c ∈ u.signals := by
      have hcount := h.signals c
      rw [StreamState.announcedBit, StreamState.announcedBit, if_neg hold,
        if_pos hmem] at hcount
      exact List.count_pos_iff.1 (by omega)
    constructor
    · intro hc'
      have hmem := hu.ready c hc'
      by_cases hold : c ∈ s.announced
      · rcases htold (hready hold) with h' | h'
        · exact .inl h'
        · have hcount := h.signals c
          rw [StreamState.announcedBit, StreamState.announcedBit, if_pos hold,
            if_pos hmem] at hcount
          have hpos := List.count_pos_iff.2 h'
          exact .inr (List.count_pos_iff.1 (by omega))
      · exact .inr (hnew hmem hold)
    · intro hmem
      by_cases hold : c ∈ s.announced
      · exact h.isReady (hready hold)
      · exact hu.isReady_of_mem_signals (hnew hmem hold)

/-- Publishing tells the region of what waited. -/
theorem drainSignals (hi : Heard t s i) (hs : Announcements (fun _ => 0) s) :
    Heard t (Provider.drainSignals s)
      (i.reportAll (s.signals.filter s.isResident)) := by
  have hdrain := Published.drainSignals s
  constructor
  · intro c hc hstale
    rw [Interest.box_reportAll] at hc
    obtain ⟨hannounced, hsignals, hrelevant⟩ := hi.stale c hc hstale
    refine ⟨hdrain.announced.symm ▸ hannounced, by simp [hdrain.signals], ?_⟩
    intro hmem
    rcases (Interest.mem_relevant_reportAll _).1 hmem with h | ⟨h, -⟩
    · exact hrelevant h
    · exact hsignals (List.mem_filter.1 h).1
  · intro c hc hstale
    rw [Interest.box_reportAll] at hc
    obtain ⟨htold, hready⟩ := hi.fresh c hc hstale
    rw [StreamState.isReady_congr hdrain.near, hdrain.announced]
    refine ⟨fun hc' => .inl ((Interest.mem_relevant_reportAll _).2 ?_), hready⟩
    rcases htold hc' with h | h
    · exact .inl h
    · exact .inr ⟨List.mem_filter.2 ⟨h, hs.resident c (hs.ready c hc')⟩, hc⟩

/-- A sweep that spares the footprint changes nothing for the region. -/
theorem swept (hi : Heard t s i) (hs : Announcements (fun _ => 0) s)
    {gone : List Coord} (h : Swept setup gone s u) (hspared : i.Spared gone) :
    Heard t u (i.withdrawAll gone) := by
  have hmem {c : Coord} (hc : i.box.contains c = true) :
      c ∈ u.announced ↔ c ∈ s.announced := by
    rw [h.mem_announced hs.nodup]
    exact and_iff_left (hspared.not_mem hc)
  constructor
  · intro c hc hstale
    rw [Interest.box_withdrawAll] at hc
    obtain ⟨hannounced, hsignals, hrelevant⟩ := hi.stale c hc hstale
    exact ⟨(hmem hc).2 hannounced, h.signals.symm ▸ hsignals,
      fun hold => hrelevant (Interest.mem_of_mem_withdrawAll hold)⟩
  · intro c hc hstale
    rw [Interest.box_withdrawAll] at hc
    obtain ⟨htold, hready⟩ := hi.fresh c hc hstale
    rw [h.isReady_iff_of_spared hspared hc, hmem hc, h.signals]
    refine ⟨?_, hready⟩
    intro hc'
    exact (htold hc').imp_left (Interest.mem_withdrawAll (hspared.not_mem hc))

/-- Publishing and sweeping together. -/
theorem compact (hi : Heard t s i) (hs : Announcements (fun _ => 0) s)
    (hspared : i.Spared (Eviction.sweep setup (Provider.drainSignals s)).1) :
    Heard t (Provider.compact setup (Provider.drainSignals s))
      (s.concluded setup i) := by
  have hnotify := sameStock_compact setup (Provider.drainSignals s)
  have hspared' : (i.reportAll (s.signals.filter s.isResident)).Spared
      (Eviction.sweep setup (Provider.drainSignals s)).1 := fun c hc =>
    hspared c (by simpa using hc)
  have hswept := (hi.drainSignals hs).swept hs.drainSignals
    (Eviction.sweep_spec setup _).1 hspared'
  exact hswept.congr hnotify.near hnotify.announced hnotify.signals

end Heard

/-! ## Runs -/

/-- Acts of a session that goes on, in which observers are never lost sight of
and nobody outside changes a tag or marks a coordinate. -/
def Act.keepsSight : Act → Bool
  | .move _ none | .markReady _ => false
  | a => a.isTame

theorem Act.isTame_of_keepsSight {a : Act} (ha : a.keepsSight = true) :
    a.isTame = true := by
  cases a with
  | move id position =>
    cases position with
    | none => simp [keepsSight] at ha
    | some c => rfl
  | markReady c => simp [keepsSight] at ha
  | _ => exact ha

/-- What holds after a run in which observers are never lost sight of. -/
structure Told (setup : Setup σ) (init : Session σ) (acts : List Act)
    (s : Session σ) : Prop where
  claims : Claims s.provider
  announcements : Announcements (fun _ => 0) s.provider.state
  keys : (Table.keys s.provider.state.regions).Nodup
  placed : ∀ id i, Table.get? s.provider.state.regions id = some i →
    ∃ here, s.position id = some here
  reports : ∀ id i, Table.get? s.provider.state.regions id = some i →
    i.Reports (s.provider.state.isReady · = true)
  heard : ∀ id i, Table.get? s.provider.state.regions id = some i →
    i.dirty = false →
    ∃ t, Session.lastCleared? setup id acts init = some t
      ∧ Heard t.provider.state s.provider.state i

namespace Told

variable {init s : Session σ} {acts : List Act} {a : Act}

/-- An update attends to every region, publishes and sweeps. -/
theorem step_update (hfinish : setup.generator.KeepsTag)
    (hs : Told setup init acts s) (hrun : init.run setup acts = s) :
    Told setup init (acts ++ [.update]) (s.step setup .update) := by
  have hpublishing :=
    hs.announcements.grown (Session.grown_publishing hfinish hs.claims)
  have hkeys := Session.nodup_keys_publishing setup hs.claims hs.keys
  have hsame := Session.sameReports_publishing setup hs.claims hs.keys
  have hready (c : Coord) : (s.provider.publishing setup s.position).isReady c
      = s.provider.state.isReady c := StreamState.isReady_congr hsame.near c
  refine ⟨hs.claims.step .update,
    hpublishing.drainSignals.compact (Published.drainSignals _).signals,
    Session.nodup_keys_update hs.claims hs.keys, ?_, ?_, ?_⟩
  · intro id i' hi'
    obtain ⟨i, hi, -, -⟩ :=
      Session.exists_region_of_update hs.claims hs.keys hi'
    rw [Session.position_step (by simp)]
    exact hs.placed id i hi
  · intro id i' hi'
    obtain ⟨i, hi, hattended, rfl⟩ :=
      Session.exists_region_of_update hs.claims hs.keys hi'
    have hspared := StreamState.spared_sweep setup hkeys hattended
    have hreports :=
      (hs.reports id i hi).attend (fun _ hc => hc) (s.position id)
    refine StreamState.reports_concluded hreports ?_ ?_
    · intro c hc _
      rw [← hready]
      exact hpublishing.isReady_of_mem_signals hc
    · intro c hc hold
      exact (isReady_compact setup _ c).2 ⟨(hready c).trans hold, hspared c hc⟩
  · intro id i' hi' _
    obtain ⟨i, hi, hattended, rfl⟩ :=
      Session.exists_region_of_update hs.claims hs.keys hi'
    have hspared := StreamState.spared_sweep setup hkeys hattended
    have hconclude {t : StreamState σ}
        (hheard : Heard t s.provider.state
            (i.attend s.provider.state.isReady (s.position id))) :=
      (hheard.congr hsame.near hsame.announced hsame.signals).compact
        hpublishing hspared
    rw [Session.lastCleared?_concat, hrun]
    rcases Interest.attend_cases s.provider.state.isReady (s.position id) i with
      ⟨here, -, hdirty, hserved⟩ | ⟨hclean, hfollow, hview⟩ | ⟨hlost, -⟩
    · have hclears : s.clears id .update = true := by
        simp [Session.clears_update, hi, hdirty]
      rw [if_pos hclears]
      refine ⟨s, rfl, hconclude ?_⟩
      rw [hserved]
      exact Heard.served
        hs.announcements ((hs.reports id i hi).follow (s.position id))
    · have hclears : s.clears id .update = false := by
        simp [Session.clears_update, hi, hclean, hfollow]
      rw [hclears, if_neg (by simp)]
      obtain ⟨t, ht, hheard⟩ := hs.heard id i hi hclean
      exact ⟨t, ht, hconclude (hheard.sameView hview)⟩
    · obtain ⟨here, hhere⟩ := hs.placed id i hi
      rw [hhere] at hlost
      cases hlost

/-- Any other act leaves a region, gives it another distance, or begins to track
its observer and serves it. -/
theorem step_of_ne (hfinish : setup.generator.KeepsTag)
    (hs : Told setup init acts s)
    (hrun : init.run setup acts = s) (ha : a.keepsSight = true)
    (hupdate : a ≠ .update) :
    Told setup init (acts ++ [a]) (s.step setup a) := by
  have htame := Act.isTame_of_keepsSight ha
  have hdispose : a ≠ .dispose := by
    rintro rfl
    simp [Act.isTame] at htame
  have hgrown := Session.grown_step hfinish hs.claims hs.announcements.aged
    htame hupdate (by
    rintro c rfl
    simp [Act.keepsSight] at ha)
  have hannouncements := hs.announcements.grown hgrown
  refine ⟨hs.claims.step a, hannouncements,
    Session.nodup_keys_step hs.claims hs.keys hupdate hdispose, ?_, ?_, ?_⟩
  · intro id i' hi'
    have hbefore : ∃ here, s.position id = some here := by
      rcases Session.region_step hs.claims hupdate hdispose hi' with
        ⟨-, i, hi, -⟩ | ⟨-, c, d, l, hc, -⟩
      · exact hs.placed id i hi
      · exact ⟨c, hc⟩
    by_cases hmove : ∃ k c, a = .move k c
    · obtain ⟨k, c, rfl⟩ := hmove
      rw [Session.position_move]
      by_cases hk : k = id
      · rw [if_pos hk]
        cases c with
        | none => simp [Act.keepsSight] at ha
        | some c => exact ⟨c, rfl⟩
      · rwa [if_neg hk]
    · simp only [not_exists] at hmove
      rwa [Session.position_step hmove]
  · intro id i' hi'
    rcases Session.region_step hs.claims hupdate hdispose hi' with
      ⟨-, i, hi, hchange⟩ | ⟨-, c, d, l, -, rfl, hsame, -⟩
    · exact ((hs.reports id i hi).mono fun c _ => hgrown.isReady).reshaped
        hchange.reshaped
    · exact (Interest.reports_seenAt id c d l).served fun c hc =>
        (StreamState.isReady_congr hsame.near c).trans hc
  · intro id i' hi' hclean
    rw [Session.lastCleared?_concat, hrun]
    rcases Session.region_step hs.claims hupdate hdispose hi' with
      ⟨hclears, i, hi, hchange⟩ | ⟨hclears, c, d, l, -, rfl, hsame, -⟩
    · have hview := hchange.reshaped.sameView hclean
      obtain ⟨t, ht, hheard⟩ := hs.heard id i hi (hview.dirty.symm.trans hclean)
      rw [hclears, if_neg (by simp)]
      exact ⟨t, ht, (hheard.grown hannouncements hgrown).sameView hview⟩
    · rw [hclears, if_pos rfl]
      have hempty : (Interest.seenAt id c d l).Reports
          (s.provider.state.isReady · = true) :=
        Interest.reports_seenAt id c d l
      exact ⟨s, rfl, (Heard.served hs.announcements hempty).congr hsame.near
        hsame.announced hsame.signals⟩

theorem step (hfinish : setup.generator.KeepsTag) (hs : Told setup init acts s)
    (hrun : init.run setup acts = s) (ha : a.keepsSight = true) :
    Told setup init (acts ++ [a]) (s.step setup a) := by
  by_cases hupdate : a = .update
  · subst hupdate
    exact hs.step_update hfinish hrun
  · exact hs.step_of_ne hfinish hrun ha hupdate

theorem start {p : Provider σ} {world : String} {workers : Nat} {far : σ}
    (hstart : Provider.start setup world workers far = .ok p) :
    Told setup (.ofProvider p) [] (.ofProvider p) where
  claims := Claims.start hstart
  announcements := (Counted.start hstart).announcements
  keys := Provider.nodup_keys_regions_start hstart
  placed := Provider.forall_region_start hstart
  reports := Provider.forall_region_start hstart
  heard := Provider.forall_region_start hstart

theorem run (hfinish : setup.generator.KeepsTag) (hs : Told setup init [] init)
    {acts : List Act} (hacts : ∀ a ∈ acts, a.keepsSight = true) :
    Told setup init acts (init.run setup acts) :=
  Session.run_induction hs fun _ a hinit hbefore =>
    hbefore.step hfinish rfl (hacts a (hinit.subset List.mem_concat_self))

end Told

/-- At the end of every update, a region whose observer was never lost sight of
reports a ready coordinate of its footprint exactly if the coordinate was not
stale when the flag of the region was lowered the last time. -/
theorem reported_iff_not_stale {p : Provider σ}
    (hfinish : setup.generator.KeepsTag)
    {world : String} {workers : Nat} {far : σ}
    (hstart : Provider.start setup world workers far = .ok p) {acts : List Act}
    (hacts : ∀ a ∈ acts, a.keepsSight = true) :
    let s := (Session.ofProvider p).run setup (acts ++ [.update])
    ∀ id i, Table.get? s.provider.state.regions id = some i →
      ∀ c, i.box.contains c = true → s.provider.state.isReady c = true →
        ∃ t, Session.lastCleared? setup id (acts ++ [.update]) (.ofProvider p)
          = some t
          ∧ (c ∈ i.relevant ↔ t.provider.state.isStale c = false) := by
  intro s id i hi c hc hready
  have hs : Told setup (.ofProvider p) (acts ++ [.update]) s :=
    (Told.start hstart).run hfinish fun a ha =>
      (List.mem_append.1 ha).elim (hacts a) fun ha => by
        rw [List.mem_singleton.1 ha]
        rfl
  have hbefore := (Told.start hstart).run hfinish hacts
  have hrun : s = ((Session.ofProvider p).run setup acts).step setup .update :=
    Session.run_concat acts .update (.ofProvider p)
  have hsignals : s.provider.state.signals = [] := by
    rw [hrun]
    exact Session.signals_update
  have hclean : i.dirty = false := by
    rw [hrun] at hi
    exact Session.dirty_update hbefore.claims hbefore.keys hi
  obtain ⟨t, ht, hheard⟩ := hs.heard id i hi hclean
  refine ⟨t, ht, ?_⟩
  cases hstale : t.provider.state.isStale c with
  | true => simpa using (hheard.stale c hc hstale).2.2
  | false =>
    rcases (hheard.fresh c hc hstale).1 hready with h | h
    · simpa using h
    · rw [hsignals] at h
      cases h

/-- The neighbourhood of the corner of the world is made. -/
def Act.fillCorner : List Act :=
  .requestBox (Box.neighborhood .corner) :: List.replicate 4 .work

/-- An observer begins to be tracked at the corner, and the worker goes on. -/
def Act.watchCorner : List Act :=
  [.move 1 (some .corner), .track 1 0 true] ++ List.replicate 42 .work

/-- With a budget of three chunks the first update announces the corner and
evicts a neighbour of it.  The neighbour comes back, but the region does not
report the corner, which was stale when the region was served. -/
theorem reported_iff_not_stale_of_watchCorner :
    let acts := Act.fillCorner ++ .update :: Act.watchCorner ++ [.update]
    let s := (Session.ofProvider (.plain 3)).run (Setup.plain 3) acts
    s.provider.pipeline.queue.entries = []
      ∧ s.provider.state.isReady .corner = true
      ∧ ∃ i, Table.get? s.provider.state.regions 1 = some i
        ∧ i.box.contains .corner = true ∧ .corner ∉ i.relevant
        ∧ ∃ t, Session.lastCleared? (Setup.plain 3) 1 acts
            (.ofProvider (.plain 3)) = some t
          ∧ t.provider.state.isStale .corner = true := by
  intro acts s
  have hsplit : s =
      (((Session.ofProvider (.plain 3)).run (Setup.plain 3) Act.fillCorner).step
        (Setup.plain 3) .update).run (Setup.plain 3)
          (Act.watchCorner ++ [.update]) := by
    simp only [s, acts, Session.run_append]
    rfl
  rw [Session.step_update_of_pairwise (by decide +kernel)] at hsplit
  have hlast : s.provider.pipeline.queue.entries = []
      ∧ s.provider.state.isReady .corner = true
      ∧ (Table.get? s.provider.state.regions 1).any (fun i =>
        i.box.contains .corner && decide (.corner ∉ i.relevant)) = true := by
    rw [hsplit]
    decide +kernel
  obtain ⟨hidle, hready, hmissed⟩ := hlast
  obtain ⟨i, hi, hmissed⟩ := (Option.any_eq_true _ _).1 hmissed
  rw [Bool.and_eq_true, decide_eq_true_eq] at hmissed
  have hacts : ∀ a ∈ Act.fillCorner ++ .update :: Act.watchCorner,
      a.keepsSight = true := by
    decide +kernel
  obtain ⟨t, ht, hreported⟩ := reported_iff_not_stale
    (Generator.keepsTag_of_finishAtOnce (g := (Setup.plain 3).generator) rfl)
    (start_plain 3) hacts 1 i hi .corner hmissed.1 hready
  exact ⟨hidle, hready, i, hi, hmissed.1, hmissed.2, t, ht,
    by simpa using (not_congr hreported).1 hmissed.2⟩

end ChunkStream
