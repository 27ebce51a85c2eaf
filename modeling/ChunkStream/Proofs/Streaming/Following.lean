import ChunkStream.Proofs.Streaming.Regions

/-!
# Following observers

An update goes through the observers before it does anything else, and tracking
a new observer does for it what an update does.  Meanwhile no chunk comes or
goes and nothing is announced, so every region is attended to against the same
readiness; and a region that is dirty has its footprint requested, unless all of
it is ready.
-/

namespace ChunkStream.Provider

variable {σ : Type} {setup : Setup σ} {p : Provider σ}

/-! ## Requests -/

/-- Requests were made: coordinates have been claimed, and nothing else has
changed in the state. -/
structure Requested (p q : Provider σ) : Prop where
  frame : q.state = { p.state with preparing := q.state.preparing }
  stopped : q.pipeline.stopped = p.pipeline.stopped
  kept : ∀ c ∈ p.state.preparing, c ∈ q.state.preparing

namespace Requested

variable {q r : Provider σ}

protected theorem refl (p : Provider σ) : Requested p p :=
  ⟨rfl, rfl, fun _ => id⟩

protected theorem trans (h : Requested p q) (h' : Requested q r) :
    Requested p r := by
  refine ⟨?_, h'.stopped.trans h.stopped, fun c hc => h'.kept c (h.kept c hc)⟩
  rw [h'.frame, h.frame]

theorem holds (h : Requested p q) {c : Coord} (hc : p.state.Holds c) :
    q.state.Holds c := by
  refine hc.imp ?_ (h.kept c)
  intro hc
  rw [h.frame]
  exact hc

theorem requestChunk (setup : Setup σ) (hp : Claims p) (c : Coord) :
    Requested p (p.requestChunk setup c) := by
  rcases requestChunk_cases setup hp.closed c with ⟨-, h⟩ | ⟨-, -, -, h⟩
  · rw [h]
    exact .refl p
  · rw [h]
    exact ⟨rfl, rfl, fun d hd => List.mem_cons_of_mem c hd⟩

end Requested

/-- Before the end, a coordinate that was requested is resident or on its
way. -/
theorem holds_requestChunk (setup : Setup σ) (hp : Claims p)
    (hopen : p.pipeline.stopped = false) (c : Coord) :
    (p.requestChunk setup c).state.Holds c := by
  rcases requestChunk_cases setup hp.closed c with ⟨hheld, h⟩ | ⟨-, -, -, h⟩
  · rw [h]
    rcases hheld with hstopped | hheld
    · rw [hopen] at hstopped
      cases hstopped
    · exact hheld
  · rw [h]
    exact .inr List.mem_cons_self

/-- Requesting a box claims what of it is neither resident nor claimed. -/
theorem requestBox_spec (setup : Setup σ) (hp : Claims p) (b : Box) :
    Requested p (p.requestBox setup b)
      ∧ (p.pipeline.stopped = false → ∀ c, b.contains c = true →
        (p.requestBox setup b).state.Holds c) := by
  have hfold (cs : List Coord) (q : Provider σ) (hq : Claims q) :
      Requested q (cs.foldl (fun p c => p.requestChunk setup c) q)
        ∧ (q.pipeline.stopped = false → ∀ c ∈ cs,
          (cs.foldl (fun p c => p.requestChunk setup c) q).state.Holds c) := by
    induction cs generalizing q with
    | nil => exact ⟨.refl q, fun _ c hc => absurd hc List.not_mem_nil⟩
    | cons d cs ih =>
      have hstep := Requested.requestChunk setup hq d
      obtain ⟨hrest, hheld⟩ := ih _ (hq.requestChunk setup d)
      refine ⟨hstep.trans hrest, ?_⟩
      intro hopen c hc
      rcases List.mem_cons.1 hc with rfl | hc
      · exact hrest.holds (holds_requestChunk setup hq hopen c)
      · exact hheld (hstep.stopped.trans hopen) c hc
  rw [requestBox_eq]
  obtain ⟨hrequested, hheld⟩ := hfold b.toList p hp
  exact ⟨hrequested, fun hopen c hc => hheld hopen c (Box.mem_toList_iff.2 hc)⟩

/-! ## Following observers -/

/-- The stock stays, but for more claims. -/
structure SameReports (p q : Provider σ) : Prop where
  near : q.state.near = p.state.near
  announced : q.state.announced = p.state.announced
  signals : q.state.signals = p.state.signals
  stopped : q.pipeline.stopped = p.pipeline.stopped
  kept : ∀ c ∈ p.state.preparing, c ∈ q.state.preparing

namespace SameReports

variable {q r : Provider σ}

protected theorem refl (p : Provider σ) : SameReports p p :=
  ⟨rfl, rfl, rfl, rfl, fun _ => id⟩

protected theorem trans (h : SameReports p q) (h' : SameReports q r) :
    SameReports p r where
  near := h'.near.trans h.near
  announced := h'.announced.trans h.announced
  signals := h'.signals.trans h.signals
  stopped := h'.stopped.trans h.stopped
  kept c hc := h'.kept c (h.kept c hc)

theorem of_requested (h : Requested p q) : SameReports p q := by
  refine ⟨?_, ?_, ?_, h.stopped, h.kept⟩ <;> rw [h.frame]

theorem modifyState {f : StreamState σ → StreamState σ}
    (h : SameStock p.state (f p.state)) : SameReports p (p.modifyState f) :=
  ⟨h.near, h.announced, h.signals, rfl, fun _ hc => h.preparing.symm ▸ hc⟩

theorem holds (h : SameReports p q) {c : Coord} (hc : p.state.Holds c) :
    q.state.Holds c :=
  hc.imp (StreamState.isResident_congr h.near c).trans (h.kept c)

end SameReports

/-- Reports what is ready in a footprint, requests the footprint if it is
lacking, and lowers the flag. -/
def serve (setup : Setup σ) (id : ObserverId) (j : Interest) (lacking : Bool)
    (p : Provider σ) : Provider σ :=
  let p := p.modifyState (reportReady id j.needed)
  let p := if lacking then p.requestBox setup (j.expanded .production) else p
  p.modifyState (·.updateRegion id fun i => (i.setUpToDate, []))

/-- A region has been served: all that is ready in its footprint is reported,
its flag is down, and what of the footprint it did not report before is resident
or claimed. -/
structure Served (id : ObserverId) (j : Interest)
    (p q : Provider σ) : Prop where
  same : SameReports p q
  keys : Table.keys q.state.regions = Table.keys p.state.regions
  region : ∀ k, Table.get? q.state.regions k
    = if k = id then some (j.served p.state.isReady)
      else Table.get? p.state.regions k
  supplied : p.pipeline.stopped = false → ∀ c, j.box.contains c = true →
    c ∈ j.relevant ∨ q.state.Holds c

theorem served (setup : Setup σ) (hp : Claims p) {id : ObserverId}
    {j : Interest}
    (hj : Table.get? p.state.regions id = some j) (lacking : Bool)
    (hlacking : lacking = false → ∀ c ∈ j.needed, p.state.isReady c = true) :
    Served id j p (serve setup id j lacking p) := by
  have hreport := SameStock.reportReady id j.needed p.state
  have hp₁ : Claims (p.modifyState (reportReady id j.needed)) :=
    hp.of_sameStock hreport
  have hsame₁ : SameReports p (p.modifyState (reportReady id j.needed)) :=
    .modifyState hreport
  have hregion₁ (k : ObserverId) := get?_reportReady id j.needed p.state k
  have hkeys₁ := keys_reportReady id j.needed p.state
  have hrequest := requestBox_spec setup hp₁ (j.expanded .production)
  unfold serve
  generalize hp₁' : p.modifyState (reportReady id j.needed) = p₁ at *
  have hstate₁ : reportReady id j.needed p.state
    = p₁.state := by rw [← hp₁']; rfl
  rw [hstate₁] at hkeys₁
  simp only [hstate₁] at hregion₁
  obtain ⟨p₂, hp₂⟩ :
      ∃ p₂, p₂ = if lacking then p₁.requestBox setup (j.expanded .production)
    else p₁ := ⟨_, rfl⟩
  have hsame₂ : SameReports p₁ p₂ ∧ p₂.state.regions = p₁.state.regions := by
    rw [hp₂]
    split
    · exact ⟨.of_requested hrequest.1, by rw [hrequest.1.frame]⟩
    · exact ⟨.refl p₁, rfl⟩
  have hlower := SameStock.updateRegion
    id (fun i => (i.setUpToDate, [])) p₂.state
  have hsame₃ : SameReports p₂
      (p₂.modifyState (·.updateRegion id fun i => (i.setUpToDate, []))) :=
        .modifyState hlower
  simp only [← hp₂]
  refine ⟨(hsame₁.trans hsame₂.1).trans hsame₃, ?_, ?_, ?_⟩
  · rw [← hkeys₁, ← hsame₂.2]
    exact StreamState.keys_updateRegion
      id (fun i => (i.setUpToDate, [])) p₂.state
  · intro k
    have hlookup :=
      StreamState.get?_updateRegion id (fun i => (i.setUpToDate, [])) p₂.state k
    rw [hsame₂.2, hregion₁ k] at hlookup
    apply hlookup.trans
    by_cases hk : k = id
    · subst hk
      rw [if_pos rfl, if_pos rfl, if_pos rfl, hj]
      rfl
    · rw [if_neg hk, if_neg hk, if_neg hk]
  · intro hopen c hc
    cases hlack : lacking with
    | true =>
      rw [hlack, if_pos rfl] at hp₂
      refine .inr (hsame₃.holds ?_)
      rw [hp₂]
      exact hrequest.2 (hsame₁.stopped.trans hopen)
        c (Box.contains_expand_production hc)
    | false =>
      by_cases hrelevant : c ∈ j.relevant
      · exact .inl hrelevant
      · have hneeded : c ∈ j.needed := by
          rw [Interest.needed, List.mem_filter, Box.mem_toList_iff]
          exact ⟨hc, by simpa using hrelevant⟩
        have hready := hlacking hlack c hneeded
        exact .inr (((hsame₁.trans hsame₂.1).trans hsame₃).holds
          (.inl (StreamState.isResident_of_isReady hready)))

/-- One observer has been followed: its region has been attended to, the others
are as they were, and if the region was dirty then what of its footprint it does
not report is resident or claimed. -/
structure Followed (id : ObserverId) (position : Option Coord)
    (p q : Provider σ) : Prop where
  same : SameReports p q
  keys : Table.keys q.state.regions = Table.keys p.state.regions
  region : ∀ k, Table.get? q.state.regions k
    = if k = id then (Table.get? p.state.regions k).map
      (Interest.attend p.state.isReady position)
      else Table.get? p.state.regions k
  supplied : p.pipeline.stopped = false →
    ∀ i, Table.get? p.state.regions id = some i →
    (i.follow position).1.dirty = true →
      ∀ c, (i.follow position).1.box.contains c = true →
      c ∈ (i.follow position).1.relevant ∨ q.state.Holds c

theorem followObserver_eq (id : ObserverId) (position : Option Coord)
    (p : Provider σ) :
    p.followObserver setup id position =
      match Table.get?
        (p.modifyState (·.updateRegion
          id (Interest.follow position))).state.regions
        id with
      | none => p.modifyState (·.updateRegion id (Interest.follow position))
      | some j =>
          if !j.dirty then p.modifyState
            (·.updateRegion id (Interest.follow position))
          else
            serve setup id j
              (j.needed.any fun c =>
                !(p.modifyState (·.updateRegion
                  id (Interest.follow position))).state.isReady c)
              (p.modifyState (·.updateRegion id (Interest.follow position))) :=
                rfl

theorem followed (setup : Setup σ) (hp : Claims p) (id : ObserverId)
    (position : Option Coord) :
    Followed id position p (p.followObserver setup id position) := by
  have hfollow := SameStock.updateRegion id (Interest.follow position) p.state
  have hsame₁ : SameReports
      p (p.modifyState (·.updateRegion id (Interest.follow position))) :=
    .modifyState hfollow
  have hp₁ : Claims
      (p.modifyState (·.updateRegion id (Interest.follow position))) :=
    hp.of_sameStock hfollow
  have hkeys₁ : Table.keys
      (p.modifyState (·.updateRegion
        id (Interest.follow position))).state.regions
        = Table.keys p.state.regions :=
          StreamState.keys_updateRegion id _ p.state
  have hregion₁ (k : ObserverId) : Table.get?
      (p.modifyState (·.updateRegion
        id (Interest.follow position))).state.regions k
        = if k = id then (Table.get? p.state.regions k).map fun i =>
          (i.follow position).1
          else Table.get? p.state.regions k :=
            StreamState.get?_updateRegion id _ p.state k
  rw [followObserver_eq]
  generalize p.modifyState (·.updateRegion id (Interest.follow position))
    = p₁ at *
  have hready (c : Coord) : p₁.state.isReady c = p.state.isReady c :=
    StreamState.isReady_congr hsame₁.near c
  have hhere := hregion₁ id
  rw [if_pos rfl] at hhere
  -- the region is not tracked, or clean after following, or it is served
  cases hi : Table.get? p.state.regions id with
  | none =>
    rw [hi] at hhere
    simp only [Option.map_none] at hhere
    simp only [hhere]
    refine ⟨hsame₁, hkeys₁, ?_,
      fun _ i hi' => by rw [hi] at hi'; cases hi'⟩
    intro k
    rw [hregion₁]
    by_cases hk : k = id
    · rw [if_pos hk, if_pos hk, hk, hi]
      rfl
    · rw [if_neg hk, if_neg hk]
  | some i =>
    rw [hi, Option.map_some] at hhere
    simp only [hhere]
    cases hdirty : (i.follow position).1.dirty with
    | false =>
      simp only [Bool.not_false, if_true]
      refine ⟨hsame₁, hkeys₁, ?_, ?_⟩
      · intro k
        rw [hregion₁]
        by_cases hk : k = id
        · rw [if_pos hk, if_pos hk, hk, hi, Option.map_some, Option.map_some,
            Interest.attend_of_clean hdirty]
        · rw [if_neg hk, if_neg hk]
      · intro _ i' hi' hdirty'
        rw [hi, Option.some.injEq] at hi'
        rw [← hi', hdirty] at hdirty'
        cases hdirty'
    | true =>
      simp only [Bool.not_true, Bool.false_eq_true, if_false]
      have hserved := served setup hp₁ hhere
        ((i.follow position).1.needed.any fun c => !p₁.state.isReady c)
          (by simp)
      refine ⟨hsame₁.trans hserved.same, hserved.keys.trans hkeys₁, ?_, ?_⟩
      · intro k
        rw [hserved.region, hregion₁]
        by_cases hk : k = id
        · rw [if_pos hk, if_pos hk, hk, hi, Option.map_some,
            Interest.attend_of_dirty hdirty,
            funext hready]
        · rw [if_neg hk, if_neg hk, if_neg hk]
      · intro hopen i' hi' _ c hc
        rw [hi, Option.some.injEq] at hi'
        subst hi'
        exact hserved.supplied (hsame₁.stopped.trans hopen) c hc

/-- All observers have been followed. -/
structure FollowedAll (positions : ObserverId → Option Coord)
    (p q : Provider σ) : Prop where
  same : SameReports p q
  keys : Table.keys q.state.regions = Table.keys p.state.regions
  region : ∀ k, Table.get? q.state.regions k
    = (Table.get? p.state.regions k).map
      (Interest.attend p.state.isReady (positions k))
  supplied : p.pipeline.stopped = false →
    ∀ k i, Table.get? p.state.regions k = some i →
    (i.follow (positions k)).1.dirty = true →
      ∀ c, (i.follow (positions k)).1.box.contains c = true →
        c ∈ (i.follow (positions k)).1.relevant ∨ q.state.Holds c

theorem followedAll (setup : Setup σ) (hp : Claims p)
    (hkeys : (Table.keys p.state.regions).Nodup)
    (positions : ObserverId → Option Coord) :
    FollowedAll positions p (p.followObservers setup positions) := by
  have hfold (ids : List ObserverId) (hids : ids.Nodup) (r : Provider σ)
    (hr : Claims r) :
      let q := ids.foldl (fun p id => p.followObserver setup id (positions id))
        r
      SameReports r q ∧ Table.keys q.state.regions = Table.keys r.state.regions
        ∧ (∀ k, Table.get? q.state.regions k = if k ∈ ids
          then (Table.get? r.state.regions k).map
            (Interest.attend r.state.isReady (positions k))
          else Table.get? r.state.regions k)
        ∧ (r.pipeline.stopped = false →
          ∀ k ∈ ids, ∀ i, Table.get? r.state.regions k = some i →
          (i.follow (positions k)).1.dirty = true →
          ∀ c, (i.follow (positions k)).1.box.contains c = true →
            c ∈ (i.follow (positions k)).1.relevant ∨ q.state.Holds c) := by
    induction ids generalizing r with
    | nil =>
      exact ⟨.refl r, rfl,
        fun k => by simp, fun _ k hk => absurd hk List.not_mem_nil⟩
    | cons id ids ih =>
      obtain ⟨hid, hids⟩ := List.nodup_cons.1 hids
      have hhead := followed setup hr id (positions id)
      obtain ⟨hsame, hkeys, hregion, hsupplied⟩ := ih hids _
        (hr.advances
          (asks_followObserver setup id (positions id) r).advances)
      have hready : (r.followObserver setup id (positions id)).state.isReady
          = r.state.isReady :=
        funext (StreamState.isReady_congr hhead.same.near)
      intro q
      refine ⟨hhead.same.trans hsame, hkeys.trans hhead.keys, ?_, ?_⟩
      · intro k
        apply (hregion k).trans
        rw [hhead.region, hready]
        by_cases hk : k = id
        · subst hk
          rw [if_neg hid, if_pos rfl, if_pos List.mem_cons_self]
        · simp only [List.mem_cons, hk, false_or, if_false]
      · intro hopen k hk i hi hdirty c hc
        rcases List.mem_cons.1 hk with rfl | hk
        · rcases hhead.supplied hopen i hi hdirty c hc with h | h
          · exact .inl h
          · exact .inr (hsame.holds h)
        · have hne : k ≠ id := fun h => hid (h ▸ hk)
          refine hsupplied (hhead.same.stopped.trans hopen) k hk i
            ?_ hdirty c hc
          rw [hhead.region, if_neg hne, hi]
  obtain ⟨hsame, hkeys', hregion, hsupplied⟩ := hfold _ hkeys p hp
  refine ⟨hsame, hkeys', ?_, ?_⟩
  · intro k
    apply (hregion k).trans
    by_cases hk : k ∈ Table.keys p.state.regions
    · rw [if_pos hk]
    · rw [if_neg hk, Table.get?_eq_none_iff.2 hk]
      rfl
  · intro hopen k i hi
    refine hsupplied hopen k ?_ i hi
    rw [Table.mem_keys_iff, hi]
    rfl

/-! ## Tracking -/

theorem addRelevance_of_tracked {id : ObserverId}
    (h : Table.contains p.state.regions id = true)
    (position : Option Coord) (distance : UInt32) (listening : Bool) :
    (p.addRelevance setup id position distance listening).2
      = p.modifyState (·.updateRegion id (Interest.setDistance distance)) := by
  unfold addRelevance
  rw [if_pos h]

theorem addRelevance_of_lost {id : ObserverId}
    (h : Table.contains p.state.regions id = false)
    (distance : UInt32) (listening : Bool) :
    (p.addRelevance setup id none distance listening).2
      = p.modifyState (·.note (.noPosition id)) := by
  unfold addRelevance
  rw [if_neg (by simp [h])]

theorem regions_removeRelevance (id : ObserverId) (p : Provider σ) :
    (p.removeRelevance id).state.regions = Table.erase p.state.regions id := by
  unfold removeRelevance
  by_cases h : Table.contains p.state.regions id = true
  · rw [if_pos h]
    exact StreamState.regions_publishCenters _
  · rw [if_neg h, Table.erase_of_not_mem fun hmem =>
      h (Table.mem_keys_iff.1 hmem)]

/-- The provider with a new region, before it is served. -/
def welcome (id : ObserverId) (i : Interest) (p : Provider σ) : Provider σ :=
  p.modifyState fun s =>
    { s with regions := Table.insert s.regions id i }.publishCenters

theorem regions_welcome (id : ObserverId) (i : Interest) (p : Provider σ) :
    (p.welcome id i).state.regions = Table.insert p.state.regions id i :=
  StreamState.regions_publishCenters _

/-- A new observer is served at once. -/
theorem addRelevance_eq {id : ObserverId}
    (hnew : Table.contains p.state.regions id = false)
    (c : Coord) (distance : UInt32) (listening : Bool) :
    (p.addRelevance setup id (some c) distance listening).2
      = serve setup id (.seenAt id c distance listening) true
          (p.welcome id (.seenAt id c distance listening)) := by
  have hneeded : (Interest.seenAt id c distance listening).needed
      = (Interest.seenAt id c distance listening).box.toList := by
    simp [Interest.needed, Interest.seenAt]
  have hreport : (p.welcome id (.seenAt id c distance listening)).modifyState
      (reportReady id (Interest.seenAt id c distance listening).box.toList)
        = p.modifyState fun s => reportReady id
          (Interest.seenAt id c distance listening).box.toList
          { s with regions := Table.insert s.regions id
                     (.seenAt id c distance listening) }.publishCenters := rfl
  simp only [addRelevance, serve, hnew, Bool.false_eq_true, if_false, if_true,
    hneeded, hreport]

theorem served_welcome (setup : Setup σ) (hp : Claims p) (id : ObserverId)
    (i : Interest) :
    SameReports p (p.welcome id i)
      ∧ Served id i (p.welcome id i)
          (serve setup id i true (p.welcome id i)) := by
  have hstock : SameStock p.state
      { p.state with regions := Table.insert p.state.regions id i
          }.publishCenters :=
    (SameStock.regions p.state _).trans (SameStock.publishCenters _)
  have hclaims : Claims (p.welcome id i) := hp.of_sameStock hstock
  refine ⟨.modifyState hstock, served setup hclaims ?_ true (by simp)⟩
  rw [regions_welcome, Table.get?_insert, if_pos rfl]

end ChunkStream.Provider
