import ChunkStream.Proofs.Streaming.Quiescence

/-!
# What regions are supplied with

A region that is served has its footprint requested, and the sweeps spare what
it asked for.  But an update that finds an observer lost lowers the flag of its
region without a request.  When the observer is seen again where it was, the
region is clean, and nothing makes up for what was not requested.  So a
footprint is supplied if its region was served when the flag was lowered the
last time, and otherwise only as far as others asked for the same chunks.
-/

namespace ChunkStream

variable {σ : Type} {setup : Setup σ} {good : σ → Prop}

/-! ## What goes on holding -/

/-- Nothing resident is lost, nor anything that is on its way. -/
structure StreamState.Keeps (s t : StreamState σ) : Prop where
  resident : ∀ c, s.isResident c = true → t.isResident c = true
  holds : ∀ c, s.Holds c → t.Holds c

namespace StreamState.Keeps

variable {s t u : StreamState σ} {p q : Provider σ}

protected theorem refl (s : StreamState σ) : Keeps s s :=
  ⟨fun _ => id, fun _ => id⟩

protected theorem trans (h : Keeps s t) (h' : Keeps t u) : Keeps s u :=
  ⟨fun c hc => h'.resident c (h.resident c hc),
    fun c hc => h'.holds c (h.holds c hc)⟩

theorem of_same (hresident : ∀ c, t.isResident c = s.isResident c)
    (hpreparing : t.preparing = s.preparing) : Keeps s t := by
  refine ⟨fun c hc => (hresident c).trans hc, ?_⟩
  intro c hc
  unfold Holds at hc ⊢
  rwa [hresident, hpreparing]

theorem advance (hreliable : setup.Reliable good) (hp : Calm setup good p)
    (h : Provider.Advance setup p q) : Keeps p.state q.state := by
  cases h with
  | beside h => exact of_same (isResident_congr h.near) h.preparing
  | request c =>
    have hrequested := Provider.Requested.requestChunk setup hp.claims c
    refine ⟨?_, fun x => hrequested.holds⟩
    intro x hx
    rw [hrequested.frame]
    exact hx
  | work h =>
    obtain ⟨-, hresident, hholds, -⟩ := hp.work hreliable h
    exact ⟨hresident, fun c => (hholds c).2⟩

theorem advances (hreliable : setup.Reliable good) (hp : Calm setup good p)
    (h : Provider.Advances setup p q) : Keeps p.state q.state := by
  have hboth : Calm setup good q ∧ Keeps p.state q.state := by
    refine h.preserve (P := fun q => Calm setup good q ∧ Keeps p.state q.state)
      ?_ ⟨hp, .refl p.state⟩
    intro r r' hstep hr
    exact ⟨hr.1.advance hreliable hstep,
      hr.2.trans (advance hreliable hr.1 hstep)⟩
  exact hboth.2

theorem step (hreliable : setup.Reliable good) {s : Session σ}
    (hs : Calm setup good s.provider) {a : Act} (ha : a.keepsFree = true)
    (hupdate : a ≠ .update) :
    Keeps s.provider.state (s.step setup a).provider.state := by
  by_cases hcall : a.isCall = true
  · exact advances hreliable hs (Session.advances_step setup hcall s)
  by_cases hhandling : a.isHandling = true
  · obtain ⟨t, ht, h⟩ := Session.handled_step setup hhandling s
    rw [h]
    apply of_same ht.isResident
    show t.preparing = _
    rw [ht.frame]
  cases a with
  | update => exact absurd rfl hupdate
  | markReady c => exact of_same (fun _ => rfl) rfl
  | dispose => cases ha
  | _ => simp [Act.isCall, Act.isHandling] at hcall hhandling

/-- What an update does after it has followed the observers loses nothing of a
footprint. -/
theorem holds_compact {id : ObserverId} {i : Interest}
    (hkeys : (Table.keys s.regions).Nodup)
    (hi : Table.get? s.regions id = some i) {c : Coord}
    (hc : i.box.contains c = true) (h : s.Holds c) :
    (Provider.compact setup (Provider.drainSignals s)).Holds c := by
  have hspared := (spared_sweep setup hkeys hi).not_mem hc
  rcases h with h | h
  · exact .inl ((isResident_compact setup s c).2 ⟨h, hspared⟩)
  · refine .inr ?_
    rwa [preparing_compact]

end StreamState.Keeps

/-! ## The invariant -/

/-- What holds after a run in which nothing fails and nobody locks a chunk. -/
structure Supplied (setup : Setup σ) (good : σ → Prop) (init : Session σ)
    (acts : List Act) (s : Session σ) : Prop where
  calm : Calm setup good s.provider
  keys : (Table.keys s.provider.state.regions).Nodup
  reports : ∀ id i, Table.get? s.provider.state.regions id = some i →
    i.Reports (s.provider.state.isResident · = true)
  supplied : ∀ id i, Table.get? s.provider.state.regions id = some i →
    i.dirty = false →
    ∃ t, Session.lastCleared? setup id acts init = some t
      ∧ (t.position id ≠ none → ∀ c, i.box.contains c = true →
        s.provider.state.Holds c)

namespace Supplied

variable {init s : Session σ} {acts : List Act} {a : Act}

theorem step_update (hreliable : setup.Reliable good)
    (hs : Supplied setup good init acts s) (hrun : init.run setup acts = s) :
    Supplied setup good init (acts ++ [.update]) (s.step setup .update) := by
  have hclaims := hs.calm.claims
  have hkeys := Session.nodup_keys_publishing setup hclaims hs.keys
  have hsame := Session.sameReports_publishing setup hclaims hs.keys
  have hresident (c : Coord) :
      (s.provider.publishing setup s.position).isResident c
        = s.provider.state.isResident c :=
    StreamState.isResident_congr hsame.near c
  refine ⟨hs.calm.step hreliable rfl, Session.nodup_keys_update hclaims hs.keys,
    ?_, ?_⟩
  · intro id i' hi'
    obtain ⟨i, hi, hattended, rfl⟩ :=
      Session.exists_region_of_update hclaims hs.keys hi'
    have hspared := StreamState.spared_sweep setup hkeys hattended
    have hreports := (hs.reports id i hi).attend
      (fun _ => StreamState.isResident_of_isReady) (s.position id)
    refine StreamState.reports_concluded hreports ?_ ?_
    · intro c _ hc
      rwa [← hresident]
    · intro c hc hold
      exact (isResident_compact setup _ c).2 ⟨(hresident c).trans hold,
        hspared.not_mem hc⟩
  · intro id i' hi' _
    obtain ⟨i, hi, hattended, rfl⟩ :=
      Session.exists_region_of_update hclaims hs.keys hi'
    have hconclude {c : Coord}
        (hc : (i.attend s.provider.state.isReady (s.position id)).box.contains c
          = true)
        (h : (s.provider.publishing setup s.position).Holds c) :
        (s.step setup .update).provider.state.Holds c :=
      StreamState.Keeps.holds_compact hkeys hattended hc h
    rw [Session.lastCleared?_concat, hrun]
    simp only [StreamState.box_concluded]
    rcases Interest.attend_cases s.provider.state.isReady (s.position id) i with
      ⟨here, -, hdirty, hserved⟩ | ⟨hclean, hfollow, hview⟩ | ⟨hlost, hdirty⟩
    · have hclears : s.clears id .update = true := by
        simp [Session.clears_update, hi, hdirty]
      rw [if_pos hclears]
      refine ⟨s, rfl, fun _ c hc => hconclude hc ?_⟩
      rw [Interest.box_attend] at hc
      have hfollowed := Provider.followedAll setup hclaims hs.keys s.position
      have hcenters : StreamState.Keeps
          (s.provider.followObservers setup s.position).state
          (s.provider.publishing setup s.position) :=
        .of_same
          (StreamState.isResident_congr (SameStock.publishCenters _).near)
          (SameStock.publishCenters _).preparing
      rcases hfollowed.supplied hs.calm.opened id i hi hdirty c hc
        with hrelevant | hholds
      · have hreports := (hs.reports id i hi).follow (s.position id)
        exact .inl ((hresident c).trans (hreports c hrelevant).2)
      · exact hcenters.holds c hholds
    · have hclears : s.clears id .update = false := by
        simp [Session.clears_update, hi, hclean, hfollow]
      rw [hclears, if_neg (by simp)]
      obtain ⟨t, ht, hsupplied⟩ := hs.supplied id i hi hclean
      refine ⟨t, ht, fun hseen c hc => hconclude hc ?_⟩
      rw [hview.box] at hc
      exact hsame.holds (hsupplied hseen c hc)
    · have hclears : s.clears id .update = true := by
        simp [Session.clears_update, hi, hdirty]
      rw [if_pos hclears]
      exact ⟨s, rfl, fun hseen => absurd hlost hseen⟩

theorem step_of_ne (hreliable : setup.Reliable good)
    (hs : Supplied setup good init acts s)
    (hrun : init.run setup acts = s) (ha : a.keepsFree = true)
    (hupdate : a ≠ .update) :
    Supplied setup good init (acts ++ [a]) (s.step setup a) := by
  have hclaims := hs.calm.claims
  have hkeeps := StreamState.Keeps.step hreliable hs.calm ha hupdate
  have hdispose : a ≠ .dispose := by
    rintro rfl
    cases ha
  refine ⟨hs.calm.step hreliable ha,
    Session.nodup_keys_step hclaims hs.keys hupdate hdispose, ?_, ?_⟩
  · intro id i' hi'
    rcases Session.region_step hclaims hupdate hdispose hi' with
      ⟨-, i, hi, hchange⟩ | ⟨-, c, d, l, -, rfl, hsame, -⟩
    · exact ((hs.reports id i hi).mono fun c _ => hkeeps.resident c).reshaped
        hchange.reshaped
    · exact (Interest.reports_seenAt id c d l).served fun c hc =>
        hkeeps.resident c (StreamState.isResident_of_isReady hc)
  · intro id i' hi' hclean
    rw [Session.lastCleared?_concat, hrun]
    rcases Session.region_step hclaims hupdate hdispose hi' with
      ⟨hclears, i, hi, hchange⟩ | ⟨hclears, c, d, l, -, -, -, hsupplied⟩
    · have hview := hchange.reshaped.sameView hclean
      obtain ⟨t, ht, hsupplied⟩ :=
        hs.supplied id i hi (hview.dirty.symm.trans hclean)
      rw [hclears, if_neg (by simp)]
      refine ⟨t, ht, ?_⟩
      intro hseen c hc
      rw [hview.box] at hc
      exact hkeeps.holds c (hsupplied hseen c hc)
    · rw [hclears, if_pos rfl]
      exact ⟨s, rfl, fun _ => hsupplied hs.calm.opened⟩

theorem step (hreliable : setup.Reliable good)
    (hs : Supplied setup good init acts s)
    (hrun : init.run setup acts = s) (ha : a.keepsFree = true) :
    Supplied setup good init (acts ++ [a]) (s.step setup a) := by
  by_cases hupdate : a = .update
  · subst hupdate
    exact hs.step_update hreliable hrun
  · exact hs.step_of_ne hreliable hrun ha hupdate

theorem start {p : Provider σ} {world : String} {workers : Nat} {far : σ}
    (hfar : good far)
    (hstart : Provider.start setup world workers far = .ok p) :
    Supplied setup good (.ofProvider p) [] (.ofProvider p) where
  calm := Calm.start hfar hstart
  keys := Provider.nodup_keys_regions_start hstart
  reports := Provider.forall_region_start hstart
  supplied := Provider.forall_region_start hstart

theorem run (hreliable : setup.Reliable good)
    (hs : Supplied setup good init [] init)
    {acts : List Act} (hacts : ∀ a ∈ acts, a.keepsFree = true) :
    Supplied setup good init acts (init.run setup acts) :=
  Session.run_induction hs fun _ a hinit hbefore =>
    hbefore.step hreliable rfl (hacts a (hinit.subset List.mem_concat_self))

end Supplied

/-- When an update has returned and only the worker goes on, it comes to rest,
and resident is then what was resident or on its way.  The footprint of a region
is supplied exactly if its observer was seen when the flag of the region was
lowered the last time, or if all of it was resident or on its way all the
same. -/
theorem footprint_supplied_iff {p : Provider σ}
    (hreliable : setup.Reliable good)
    {world : String} {workers : Nat} {far : σ} (hfar : good far)
    (hstart : Provider.start setup world workers far = .ok p) {acts : List Act}
    (hacts : ∀ a ∈ acts, a.keepsFree = true) :
    let s := (Session.ofProvider p).run setup (acts ++ [.update])
    ∃ n, ∀ m, n ≤ m →
      let u := s.run setup (List.replicate m .work)
      u.provider.pipeline.queue.tasks = []
        ∧ (∀ c, u.provider.state.isResident c = true ↔ s.provider.state.Holds c)
        ∧ ∀ id i, Table.get? u.provider.state.regions id = some i →
          ∃ t, Session.lastCleared? setup id (acts ++ [.update]) (.ofProvider p)
            = some t
            ∧ ((∀ c, i.box.contains c = true →
                u.provider.state.isResident c = true)
              ↔ t.position id ≠ none
                ∨ ∀ c, i.box.contains c = true → s.provider.state.Holds c) := by
  intro s
  have hbefore := (Supplied.start hfar hstart).run hreliable hacts
  have hrun : s = ((Session.ofProvider p).run setup acts).step setup .update :=
    Session.run_concat acts .update (.ofProvider p)
  have hs : Supplied setup good (.ofProvider p) (acts ++ [.update]) s := by
    rw [hrun]
    exact hbefore.step_update hreliable rfl
  refine ⟨s.provider.pipeline.queue.weight, ?_⟩
  intro m hm u
  obtain ⟨htasks, hresident⟩ := Session.run_work_of_calm hreliable hs.calm hm
  refine ⟨htasks, hresident, ?_⟩
  intro id i hi
  rw [(Session.run_work_frame m s).1] at hi
  have hclean : i.dirty = false := by
    rw [hrun] at hi
    exact Session.dirty_update hbefore.calm.claims hbefore.keys hi
  obtain ⟨t, ht, hsupplied⟩ := hs.supplied id i hi hclean
  refine ⟨t, ht, fun hall => .inr fun c hc => (hresident c).1 (hall c hc), ?_⟩
  rintro (hseen | hholds) c hc
  · exact (hresident c).2 (hsupplied hseen c hc)
  · exact (hresident c).2 (hholds c hc)

/-- Nothing fails in a plain world as long as the shelf has no locked chunk. -/
theorem Setup.reliable_plain (budget : Nat) : (Setup.plain budget).Reliable
    fun far => ∀ chunk ∈ Table.values far, chunk.locked = false where
  generate c := ⟨_, rfl, rfl⟩
  finish chunk := rfl
  get far c hfar hc := by
    obtain ⟨chunk, hchunk⟩ := Option.isSome_iff_exists.1 hc
    exact ⟨chunk, congrArg Except.ok hchunk,
      hfar chunk (Table.mem_values_of_get?_eq_some hchunk)⟩
  put far chunk next hfar hfree hput := by
    obtain rfl : Table.insert far chunk.coord chunk = next := Except.ok.inj hput
    constructor
    · intro other hother
      rcases Table.mem_values_insert hother with rfl | hother
      · exact hfree
      · exact hfar other hother
    · intro c hc
      show (Table.get? (Table.insert far chunk.coord chunk) c).isSome = true
      rw [Table.get?_insert]
      split
      · rfl
      · exact hc

/-- An observer asks for a larger footprint and is lost; an update lowers the
flag of its region, and the observer is seen again where it was. -/
def Act.loseSight : List Act :=
  [.move 1 (some .corner), .track 1 0 true, .setDistance 1 3, .move 1 none,
    .update, .move 1 (some .corner)]

/-- The far end of the larger footprint at the corner is never made, though the
observer is seen by the last update. -/
theorem footprint_supplied_iff_of_loseSight :
    let s := (Session.ofProvider (.plain 100)).run (Setup.plain 100)
      (Act.loseSight ++ [.update])
    s.position 1 = some .corner ∧ ∃ n, ∀ m, n ≤ m →
      let u := s.run (Setup.plain 100) (List.replicate m .work)
      u.provider.pipeline.queue.tasks = []
        ∧ ∃ i, Table.get? u.provider.state.regions 1 = some i
          ∧ i.box.contains ⟨2147483644, 0, 2147483644⟩ = true
          ∧ u.provider.state.isResident ⟨2147483644, 0, 2147483644⟩ = false
          ∧ ∃ t, Session.lastCleared? (Setup.plain 100) 1
              (Act.loseSight ++ [.update]) (.ofProvider (.plain 100)) = some t
            ∧ t.position 1 = none := by
  intro s
  have hseen : s.position 1 = some .corner := by decide +kernel
  have hwanted : (Table.get? s.provider.state.regions 1).any
      (·.box.contains ⟨2147483644, 0, 2147483644⟩) = true := by
    decide +kernel
  have hlacking :
      s.provider.state.isResident ⟨2147483644, 0, 2147483644⟩ = false
        ∧ ⟨2147483644, 0, 2147483644⟩ ∉ s.provider.state.preparing := by
    decide +kernel
  obtain ⟨i, hi, hin⟩ := (Option.any_eq_true _ _).1 hwanted
  obtain ⟨n, hn⟩ := footprint_supplied_iff (Setup.reliable_plain 100)
    (fun _ h => absurd h List.not_mem_nil) (start_plain 100)
    (show ∀ a ∈ Act.loseSight, a.keepsFree = true by decide)
  refine ⟨hseen, n, ?_⟩
  intro m hm u
  obtain ⟨htasks, hresident, hregions⟩ := hn m hm
  have hi' : Table.get? u.provider.state.regions 1 = some i := by
    rw [(Session.run_work_frame m s).1]
    exact hi
  have hnever : u.provider.state.isResident ⟨2147483644, 0, 2147483644⟩
      = false := by
    rw [← Bool.not_eq_true, hresident]
    rintro (h | h)
    · rw [hlacking.1] at h
      cases h
    · exact hlacking.2 h
  obtain ⟨t, ht, hsupplied⟩ := hregions 1 i hi'
  refine ⟨htasks, i, hi', hin, hnever, t, ht, ?_⟩
  by_contra hlost
  have hall := hsupplied.2 (.inl hlost) _ hin
  rw [hnever] at hall
  cases hall

end ChunkStream
