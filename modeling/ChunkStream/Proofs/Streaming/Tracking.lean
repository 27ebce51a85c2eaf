import ChunkStream.Proofs.Streaming.Teardown
import ChunkStream.Proofs.Work.Arrival

/-!
# Tracking an observer

When an observer is seen for the first time, production is requested for its
footprint and a margin around it: what of that is neither resident nor claimed
is claimed, and its task is queued.  What of the footprint is ready already is
reported at once, in walking order.  Nothing else happens; and of an observer
that is tracked already only the distance is changed.

Requests for a region, its reports and the region itself change together, and
`attended` says how in one equation of providers.
-/

namespace ChunkStream

variable {σ : Type} {setup : Setup σ} {p q r : Provider σ}
  {s : StreamState σ} {id : ObserverId} {i : Interest} {c : Coord}
  {cs ds : List Coord} {js ks : List JournalEntry}
  {rs ss : Table ObserverId Interest}

/-! ## What a request claims -/

/-- The coordinate is neither resident nor claimed. -/
def StreamState.lacks (s : StreamState σ) (c : Coord) : Bool :=
  !s.isResident c && c ∉ s.preparing

theorem StreamState.lacks_congr {t : StreamState σ} (hnear : t.near = s.near)
    (hpreparing : t.preparing = s.preparing) (c : Coord) :
    t.lacks c = s.lacks c := by
  rw [lacks, lacks, isResident_congr hnear, hpreparing]

namespace Provider

/-- The provider with coordinates claimed and their tasks queued, entries made
in the journal and other regions. -/
def attended (setup : Setup σ) (cs : List Coord) (js : List JournalEntry)
    (rs : Table ObserverId Interest) (p : Provider σ) : Provider σ :=
  { p with pipeline := { p.pipeline with
    state := { p.state with
      preparing := cs.reverse ++ p.state.preparing
      regions := rs
      journal := js.reverse ++ p.state.journal }
    queue := p.pipeline.queue.enqueueAll (Production.priority p.state)
      (cs.map fun c => taskFor setup c p.state) } }

theorem attended_nil (setup : Setup σ) (p : Provider σ) :
    p.attended setup [] [] p.state.regions = p := rfl

theorem attended_attended : (p.attended setup cs js rs).attended setup ds ks ss
    = p.attended setup (cs ++ ds) (js ++ ks) ss := by
  have htask (c : Coord) : taskFor setup c (p.attended setup cs js rs).state
      = taskFor setup c p.state := rfl
  have hpriority : Production.priority (p.attended setup cs js rs).state
      = Production.priority p.state := rfl
  rw [attended, funext htask, hpriority]
  simp [attended, TaskQueue.enqueueAll_append, Provider.state]

theorem modifyState_attended {f : StreamState σ → StreamState σ}
    (h : f p.state = { p.state with
      regions := rs
      journal := js.reverse ++ p.state.journal }) :
    p.modifyState f = p.attended setup [] js rs :=
  congrArg (fun s => ({ p with
    pipeline := { p.pipeline with state := s } } : Provider σ)) h

/-- The coordinate is free, and production goes on. -/
def takes (p : Provider σ) (c : Coord) : Bool :=
  !p.pipeline.stopped && p.state.lacks c

theorem takes_attended {c : Coord} : (p.attended setup cs js rs).takes c
    = (p.takes c && c ∉ cs) := by
  have hresident : (p.attended setup cs js rs).state.isResident c
      = p.state.isResident c := rfl
  have hpreparing : (p.attended setup cs js rs).state.preparing
      = cs.reverse ++ p.state.preparing := rfl
  have hstopped : (p.attended setup cs js rs).pipeline.stopped
      = p.pipeline.stopped := rfl
  rw [takes, takes, StreamState.lacks, StreamState.lacks, hresident,
    hpreparing, hstopped]
  simp only [List.mem_append, List.mem_reverse, not_or, Bool.decide_and,
    Bool.and_assoc]
  congr 2
  exact Bool.and_comm _ _

theorem closed_attended
    (hclosed : p.pipeline.queue.closed = p.pipeline.stopped) :
    (p.attended setup cs js rs).pipeline.queue.closed
      = (p.attended setup cs js rs).pipeline.stopped :=
  (TaskQueue.closed_enqueueAll _ _).trans hclosed

/-- Requesting coordinates in turn claims those that are taken. -/
theorem foldl_requestChunk
    (hclosed : p.pipeline.queue.closed = p.pipeline.stopped)
    (hcs : cs.Nodup) : cs.foldl (fun p c => p.requestChunk setup c) p
      = p.attended setup (cs.filter p.takes) [] p.state.regions := by
  induction cs generalizing p with
  | nil => rfl
  | cons c cs ih =>
    obtain ⟨hc, hcs⟩ := List.nodup_cons.1 hcs
    rw [List.foldl_cons]
    rcases requestChunk_cases setup hclosed c with
      ⟨hheld, h⟩ | ⟨hopen, habsent, hfree, h⟩
    · have hleft : ¬ p.takes c = true := by
        rw [takes, StreamState.lacks]
        rcases hheld with hstopped | hresident | hclaimed
        · simp [hstopped]
        · simp [hresident]
        · simp [hclaimed]
      rw [h, List.filter_cons_of_neg hleft]
      exact ih hclosed hcs
    · have htaken : p.takes c = true := by
        simp [takes, StreamState.lacks, hopen, habsent, hfree]
      have hclaim : p.claim setup c
          = p.attended setup [c] [] p.state.regions := rfl
      have hrest : cs.filter (p.claim setup c).takes = cs.filter p.takes := by
        apply List.filter_congr
        intro d hd
        have hne : d ≠ c := fun heq => hc (heq ▸ hd)
        rw [hclaim, takes_attended]
        simp [hne]
      have hclosed' : (p.claim setup c).pipeline.queue.closed
          = (p.claim setup c).pipeline.stopped := by
        rw [hclaim]
        exact closed_attended hclosed
      rw [h, ih hclosed' hcs, hrest, List.filter_cons_of_pos htaken, hclaim]
      exact attended_attended

/-- Coordinates have been claimed one by one and their tasks queued, which load
what the far tier has and generate the rest, and entries have been made in the
journal.  Apart from regions and centers nothing else has changed. -/
structure Claimed (setup : Setup σ) (cs : List Coord) (js : List JournalEntry)
    (p q : Provider σ) : Prop where
  frame : q = { p with pipeline := { p.pipeline with
    state := { p.state with
      preparing := cs.reverse ++ p.state.preparing
      regions := q.state.regions
      centers := q.state.centers
      epoch := q.state.epoch
      journal := js.reverse ++ p.state.journal }
    queue := q.pipeline.queue } }
  tasks : q.pipeline.queue.tasks
    = (cs.map fun c => taskFor setup c p.state).reverse
      ++ p.pipeline.queue.tasks

namespace Claimed

theorem attended : Claimed setup cs js p (p.attended setup cs js rs) :=
  ⟨rfl, TaskQueue.tasks_enqueueAll _ _⟩

protected theorem trans (h : Claimed setup cs js p q)
    (h' : Claimed setup ds ks q r) :
    Claimed setup (cs ++ ds) (js ++ ks) p r where
  frame := by
    rw [h'.frame, h.frame]
    simp [Provider.state]
  tasks := by
    have hfar : q.state.far = p.state.far := by
      rw [h.frame]
      rfl
    have hsame (c : Coord) :
        taskFor setup c q.state = taskFor setup c p.state := by
      rw [taskFor, taskFor, hfar]
    rw [h'.tasks, h.tasks]
    simp [hsame]

/-- What happens beside the stock of chunks claims nothing. -/
theorem of_sameStock {f : StreamState σ → StreamState σ}
    (h : SameStock p.state (f p.state))
    (hjournal : (f p.state).journal = js.reverse ++ p.state.journal) :
    Claimed setup [] js p (p.modifyState f) where
  frame := by
    have hframe := h.frame
    rw [hjournal] at hframe
    exact congrArg (fun s => ({ p with
      pipeline := { p.pipeline with state := s } } : Provider σ)) hframe
  tasks := rfl

end Claimed

theorem modifyState_congr {f g : StreamState σ → StreamState σ}
    (h : f p.state = g p.state) : p.modifyState f = p.modifyState g := by
  have hstate : f p.pipeline.state = g p.pipeline.state := h
  rw [modifyState, modifyState, hstate]

end Provider

/-! ## What a listener is told -/

/-- What the journal says of the callbacks of a region, earliest first. -/
def Interest.entries (i : Interest) (callbacks : List Callback) :
    List JournalEntry :=
  if i.listening then callbacks.map (.told i.observer) else []

@[simp]
theorem Interest.entries_nil (i : Interest) : i.entries [] = [] :=
  ite_self []

theorem Interest.entries_append (i : Interest) (cbs cbs' : List Callback) :
    i.entries (cbs ++ cbs') = i.entries cbs ++ i.entries cbs' := by
  unfold entries
  split
  · exact List.map_append
  · rfl

/-- The coordinates are of the footprint, and none has been reported. -/
structure Interest.Unheard (i : Interest) (cs : List Coord) : Prop where
  nodup : cs.Nodup
  inside : ∀ c ∈ cs, i.box.contains c = true
  fresh : ∀ c ∈ cs, c ∉ i.relevant

namespace Interest.Unheard

theorem tail (h : i.Unheard (c :: cs)) : i.Unheard cs where
  nodup := (List.nodup_cons.1 h.nodup).2
  inside d hd := h.inside d (List.mem_cons_of_mem c hd)
  fresh d hd := h.fresh d (List.mem_cons_of_mem c hd)

/-- The first of them is reported, and the region remembers it. -/
theorem chunkReady (h : i.Unheard (c :: cs)) : i.chunkReady c
    = ({ i with relevant := c :: i.relevant }, [.ready c]) :=
  if_pos ⟨h.inside c List.mem_cons_self, h.fresh c List.mem_cons_self⟩

theorem next (h : i.Unheard (c :: cs)) :
    ({ i with relevant := c :: i.relevant } : Interest).Unheard cs where
  nodup := h.tail.nodup
  inside := h.tail.inside
  fresh d hd hmem := by
    rcases List.mem_cons.1 hmem with rfl | hmem
    · exact (List.nodup_cons.1 h.nodup).1 hd
    · exact h.tail.fresh d hd hmem

theorem filter (h : i.Unheard cs) (ready : Coord → Bool) :
    i.Unheard (cs.filter ready) where
  nodup := h.nodup.filter ready
  inside d hd := h.inside d (List.mem_of_mem_filter hd)
  fresh d hd := h.fresh d (List.mem_of_mem_filter hd)

theorem reportAll (h : i.Unheard cs) :
    i.reportAll cs = { i with relevant := cs.reverse ++ i.relevant } := by
  induction cs generalizing i with
  | nil => rfl
  | cons c cs ih =>
    show (i.chunkReady c).1.reportAll cs = _
    rw [h.chunkReady, ih h.next]
    simp

end Interest.Unheard

theorem Interest.unheard_needed (i : Interest) : i.Unheard i.needed where
  nodup := Box.nodup_toList.filter _
  inside _ h := Box.mem_toList_iff.1 (List.mem_of_mem_filter h)
  fresh _ h := of_decide_eq_true (List.mem_filter.1 h).2

namespace StreamState

theorem tell_eq (i : Interest) (callbacks : List Callback)
    (s : StreamState σ) : s.tell i callbacks
      = { s with journal := (i.entries callbacks).reverse ++ s.journal } := by
  have hfold (cbs : List Callback) (s : StreamState σ) :
      cbs.foldl (fun s cb => s.record (.told i.observer cb)) s
        = { s with journal := (cbs.map (.told i.observer)).reverse
                     ++ s.journal } := by
    induction cbs generalizing s with
    | nil => rfl
    | cons cb cbs ih =>
      rw [List.foldl_cons, ih]
      simp [record]
  unfold tell Interest.entries
  split
  · exact hfold callbacks s
  · rfl

theorem updateRegion_of_untracked (hi : Table.get? s.regions id = none)
    (f : Interest → Interest × List Callback) : s.updateRegion id f = s := by
  unfold updateRegion
  simp only [hi]

/-- An operation on a tracked region changes the region and makes its callbacks,
and that is all. -/
theorem updateRegion_of_tracked (hi : Table.get? s.regions id = some i)
    (f : Interest → Interest × List Callback) : s.updateRegion id f
      = { s with
          regions := Table.adjust s.regions id fun _ => (f i).1
          journal := ((f i).1.entries (f i).2).reverse ++ s.journal } := by
  unfold updateRegion
  simp only [hi, tell_eq]

/-- The operation leaves alone whose region it is and who listens. -/
def KeepsObserver (f : Interest → Interest × List Callback) : Prop :=
  ∀ i, (f i).1.observer = i.observer ∧ (f i).1.listening = i.listening

theorem KeepsObserver.entries {f : Interest → Interest × List Callback}
    (hf : KeepsObserver f) (i : Interest) (cbs : List Callback) :
    (f i).1.entries cbs = i.entries cbs := by
  rw [Interest.entries, (hf i).1, (hf i).2, Interest.entries]

theorem journal_publishCenters (s : StreamState σ) :
    s.publishCenters.journal = s.journal := by
  unfold publishCenters
  simp only
  split <;> rfl

end StreamState

namespace Provider

/-- What is reported for the first time the region remembers, and its listener
is told of it, once and in the same order. -/
theorem reportReady_eq (hi : Table.get? s.regions id = some i)
    (hcs : i.Unheard cs) : reportReady id cs s = { s with
      regions := Table.adjust s.regions id fun _ =>
        i.reportAll (cs.filter s.isReady)
      journal := (i.entries ((cs.filter s.isReady).map .ready)).reverse
        ++ s.journal } := by
  induction cs generalizing s i with
  | nil =>
    have hsame : Table.adjust s.regions id (fun _ => i) = s.regions :=
      (Table.adjust_const hi fun j => j).trans (Table.adjust_self s.regions id)
    show s = _
    simp [Interest.reportAll, hsame]
  | cons c cs ih =>
    rw [reportReady, List.foldl_cons]
    cases hready : s.isReady c with
    | false =>
      rw [if_neg (by simp), List.filter_cons_of_neg (by simp [hready])]
      exact ih hi hcs.tail
    | true =>
      let i' : Interest := { i with relevant := c :: i.relevant }
      have hstep := StreamState.updateRegion_of_tracked hi
        (Interest.chunkReady c)
      rw [hcs.chunkReady] at hstep
      have hsame : (s.updateRegion id (Interest.chunkReady c)).isReady
          = s.isReady := funext fun d =>
        StreamState.isReady_congr (SameStock.updateRegion id _ s).near d
      have hnext : Table.get? (s.updateRegion id
          (Interest.chunkReady c)).regions id = some i' := by
        rw [StreamState.get?_updateRegion, if_pos rfl, hi, Option.map_some,
          hcs.chunkReady]
      have hreported : i.reportAll (c :: cs.filter s.isReady)
          = i'.reportAll (cs.filter s.isReady) := by
        show (i.chunkReady c).1.reportAll _ = _
        rw [hcs.chunkReady]
      have hentries : i'.entries = i.entries := rfl
      have htold : i.entries (.ready c :: (cs.filter s.isReady).map .ready)
          = i.entries [.ready c]
            ++ i.entries ((cs.filter s.isReady).map .ready) :=
        i.entries_append [.ready c] _
      have hrest := ih hnext hcs.next
      rw [hsame, hentries, hstep, Table.adjust_adjust_const] at hrest
      rw [if_pos rfl, hstep, List.filter_cons_of_pos hready, List.map_cons,
        htold, List.reverse_append, List.append_assoc, hreported]
      exact hrest

theorem modifyState_updateRegion {f : Interest → Interest × List Callback}
    (hf : StreamState.KeepsObserver f)
    (hi : Table.get? p.state.regions id = some i) :
    p.modifyState (·.updateRegion id f) = p.attended setup []
      (i.entries (f i).2)
      (Table.adjust p.state.regions id fun _ => (f i).1) := by
  apply modifyState_attended
  rw [StreamState.updateRegion_of_tracked hi, hf.entries]

/-- Serving a region reports what is ready of its footprint, and claims what is
free of the footprint and a margin if it is lacking. -/
theorem serve_eq (setup : Setup σ)
    (hclosed : p.pipeline.queue.closed = p.pipeline.stopped)
    (hi : Table.get? p.state.regions id = some i) (lacking : Bool) :
    serve setup id i lacking p = p.attended setup
      ((if lacking then (i.expanded .production).toList else []).filter p.takes)
      (i.entries ((i.needed.filter p.state.isReady).map .ready))
      (Table.adjust p.state.regions id fun _ => i.served p.state.isReady) := by
  let js := i.entries ((i.needed.filter p.state.isReady).map .ready)
  let j := i.reportAll (i.needed.filter p.state.isReady)
  let rs := Table.adjust p.state.regions id fun _ => j
  have hreport : p.modifyState (reportReady id i.needed)
      = p.attended setup [] js rs :=
    modifyState_attended (reportReady_eq hi i.unheard_needed)
  have htakes : (p.attended setup [] js rs).takes = p.takes := by
    funext c
    rw [takes_attended]
    simp
  have hrequest (ds : List Coord) (hds : ds.Nodup) :
      ds.foldl (fun p c => p.requestChunk setup c) (p.attended setup [] js rs)
        = p.attended setup (ds.filter p.takes) js rs := by
    rw [foldl_requestChunk (closed_attended hclosed) hds, htakes]
    apply attended_attended.trans
    rw [List.nil_append, List.append_nil]
    rfl
  have hlower (ds : List Coord) :
      (p.attended setup ds js rs).modifyState
          (·.updateRegion id fun i => (i.setUpToDate, []))
        = p.attended setup ds js
          (Table.adjust p.state.regions id
            fun _ => i.served p.state.isReady) := by
    have hj : Table.get? (p.attended setup ds js rs).state.regions id
        = some j := by
      show Table.get? (Table.adjust p.state.regions id fun _ => j) id = _
      rw [Table.get?_adjust, if_pos rfl, hi, Option.map_some]
    rw [modifyState_updateRegion (f := fun i => (i.setUpToDate, []))
      (fun _ => ⟨rfl, rfl⟩) hj, attended_attended, Interest.entries_nil,
      List.append_nil, List.append_nil]
    show p.attended setup ds js (Table.adjust (Table.adjust p.state.regions id
      fun _ => j) id fun _ => j.setUpToDate) = _
    rw [Table.adjust_adjust_const]
    rfl
  unfold serve
  simp only [hreport]
  cases lacking with
  | false => exact hlower []
  | true =>
    rw [if_pos rfl, if_pos rfl, requestBox_eq, hrequest _ Box.nodup_toList]
    exact hlower _

/-! ## Tracking -/

/-- While production goes on, serving a region that is lacking claims what is
free and tells the listener of what is ready. -/
theorem claimed_serve (hp : Claims p) (hopen : p.pipeline.stopped = false)
    (hi : Table.get? p.state.regions id = some i) :
    Claimed setup ((i.expanded .production).toList.filter p.state.lacks)
      (i.entries ((i.needed.filter p.state.isReady).map .ready)) p
      (serve setup id i true p) := by
  have htakes : p.takes = p.state.lacks := by
    funext c
    rw [takes, hopen, Bool.not_false, Bool.true_and]
  rw [serve_eq setup hp.closed hi, if_pos rfl, htakes]
  exact .attended

/-- A region has been added.  The first list of coordinates has been claimed and
the second one has been reported to the region, whose flag is down. -/
structure Tracked (setup : Setup σ) (i : Interest) (new ready : List Coord)
    (p q : Provider σ) : Prop
    extends Claimed setup new (i.entries (ready.map .ready)) p q where
  region : Table.get? q.state.regions i.observer
    = some { i with relevant := ready.reverse, dirty := false }
  others : ∀ k, k ≠ i.observer →
    Table.get? q.state.regions k = Table.get? p.state.regions k

theorem needed_seenAt (id : ObserverId) (c : Coord) (d : UInt32) (l : Bool) :
    (Interest.seenAt id c d l).needed = (Box.footprint c d).toList := by
  simp [Interest.needed, Interest.seenAt]

theorem tracked_addRelevance (setup : Setup σ) (hp : Claims p)
    (hopen : p.pipeline.stopped = false)
    (hnew : Table.contains p.state.regions id = false) (c : Coord)
    (d : UInt32) (l : Bool) :
    Tracked setup (.seenAt id c d l)
      (((Box.footprint c d).expand .production).toList.filter p.state.lacks)
      ((Box.footprint c d).toList.filter p.state.isReady) p
      (p.addRelevance setup id (some c) d l).2 := by
  let i := Interest.seenAt id c d l
  have hstock : SameStock p.state (p.welcome id i).state :=
    (SameStock.regions p.state _).trans (SameStock.publishCenters _)
  have hready : (p.welcome id i).state.isReady = p.state.isReady :=
    funext (StreamState.isReady_congr hstock.near)
  have hlacks : (p.welcome id i).state.lacks = p.state.lacks :=
    funext (StreamState.lacks_congr hstock.near hstock.preparing)
  have hwelcomed : Claimed setup [] [] p (p.welcome id i) :=
    .of_sameStock hstock (StreamState.journal_publishCenters _)
  have htracked : Table.get? (p.welcome id i).state.regions id = some i := by
    rw [regions_welcome, Table.get?_insert, if_pos rfl]
  have hall := hwelcomed.trans
    (claimed_serve (hp.of_sameStock hstock) hopen htracked)
  obtain ⟨-, hserved⟩ := served_welcome setup hp id i
  have hneeded : i.needed = (Box.footprint c d).toList := needed_seenAt id c d l
  rw [List.nil_append, List.nil_append, hready, hlacks, hneeded] at hall
  rw [addRelevance_eq hnew]
  refine ⟨hall, ?_, ?_⟩
  · have hregion := hserved.region id
    rw [if_pos rfl, hready, Interest.served,
      (i.unheard_needed.filter _).reportAll, hneeded] at hregion
    apply hregion.trans
    simp [i, Interest.setUpToDate, Interest.seenAt]
  · intro k hk
    have hne : k ≠ id := hk
    rw [hserved.region, if_neg hne, regions_welcome, Table.get?_insert,
      if_neg hne.symm]

end Provider

/-! ## Every provider that goes on -/

/-- Only the end stops production. -/
theorem Claims.stopped_step {s : Session σ} {a : Act} (hs : Claims s.provider)
    (ha : a ≠ .dispose) : (s.step setup a).provider.pipeline.stopped
      = s.provider.pipeline.stopped := by
  by_cases hupdate : a = .update
  · subst hupdate
    exact (Provider.Undisturbed.advances hs
      (Provider.advances_publishing setup s.position s.provider)).stopped
  · exact (Provider.Undisturbed.step hs hupdate ha).stopped

/-- Before the end, claims are in order and production goes on. -/
theorem Claims.running {world : String} {workers : Nat} {far : σ}
    (hstart : Provider.start setup world workers far = .ok p) {acts : List Act}
    (hacts : ∀ a ∈ acts, a ≠ .dispose) :
    Claims ((Session.ofProvider p).run setup acts).provider
      ∧ ((Session.ofProvider p).run setup acts).provider.pipeline.stopped
        = false := by
  apply Session.run_preserve (P := fun t => Claims t.provider
    ∧ t.provider.pipeline.stopped = false)
  · exact ⟨.start hstart, (Provider.start_spec hstart).2.2.1⟩
  · rintro a ha t ⟨ht, hopen⟩
    exact ⟨ht.step a, (ht.stopped_step (hacts a ha)).trans hopen⟩

/-- Another distance does not change who listens. -/
theorem Interest.entries_setDistance (i : Interest) (d : UInt32) :
    (i.setDistance d).1.entries = i.entries := by
  unfold setDistance reshape
  split
  · rfl
  · simp only
    split <;> rfl

/-- A new observer has exactly what is lacking within its distance and two more
claimed, and hears once and in walking order of what is ready in its footprint.
Of one that is tracked already the distance is changed, and its footprint with
it. -/
theorem tracking_claims_footprint {world : String} {workers : Nat} {far : σ}
    (hstart : Provider.start setup world workers far = .ok p) {acts : List Act}
    (hacts : ∀ a ∈ acts, a ≠ .dispose) (id : ObserverId) (d : UInt32)
    (l : Bool) :
    let p' := ((Session.ofProvider p).run setup acts).provider
    (Table.contains p'.state.regions id = false → ∀ c, ∃ new ready q,
        p'.addRelevance setup id (some c) d l = (true, q)
        ∧ p'.Tracked setup (.seenAt id c d l) new ready q
        ∧ new = ((Box.footprint c d).expand .production).toList.filter
          p'.state.lacks
        ∧ new.Nodup ∧ (∀ e, e ∈ new ↔
          (e.x.toInt - c.x.toInt).natAbs ≤ min d.toNat 2147483647 + 2
            ∧ e.y = c.y
            ∧ (e.z.toInt - c.z.toInt).natAbs ≤ min d.toNat 2147483647 + 2
            ∧ p'.state.isResident e = false ∧ e ∉ p'.state.preparing)
        ∧ ready = (Box.footprint c d).toList.filter p'.state.isReady
        ∧ ready.Nodup)
      ∧ ∀ i position, Table.get? p'.state.regions id = some i →
        p'.addRelevance setup id position d l
          = (true, p'.modifyState fun s => { s with
            regions := Table.adjust s.regions id fun _ => (i.setDistance d).1
            journal := (i.entries (i.setDistance d).2).reverse
              ++ s.journal }) := by
  intro p'
  obtain ⟨hclaims, hopen⟩ := Claims.running hstart hacts
  constructor
  · intro hnew c
    have htracked :=
      Provider.tracked_addRelevance setup hclaims hopen hnew c d l
    refine ⟨_, _, _, Prod.ext ?_ rfl, htracked, rfl,
      Box.nodup_toList.filter _, ?_, rfl, Box.nodup_toList.filter _⟩
    · simp only [Provider.addRelevance, hnew]
      rfl
    · intro e
      rw [List.mem_filter, Box.mem_toList_iff,
        Box.contains_expand_footprint_iff]
      simp [StreamState.lacks, and_assoc, p']
  · intro i position hi
    have htracked : Table.contains p'.state.regions id = true := by
      simp [Table.contains, hi]
    have hupdate := StreamState.updateRegion_of_tracked hi
      (Interest.setDistance d)
    rw [Interest.entries_setDistance] at hupdate
    refine Prod.ext ?_ ((Provider.addRelevance_of_tracked htracked position d
      l).trans ?_)
    · simp only [Provider.addRelevance, htracked, if_true]
    · dsimp only
      apply Provider.modifyState_congr
      exact hupdate

/-- Of the nine coordinates at the corner of the world, one is stored, the
corner itself is resident and another one is claimed. -/
def Act.prepareCorner : List Act :=
  [.request ⟨2147483646, 0, 2147483647⟩, .work, .update, .request .corner]
    ++ List.replicate 12 .work ++ [.request ⟨2147483647, 0, 2147483646⟩]

/-- An observer at the corner has the other seven claimed, of which the stored
one is loaded. -/
theorem tracking_claims_footprint_of_corner :
    let p := ((Session.ofProvider (.plain 0)).run (Setup.plain 0)
      Act.prepareCorner).provider
    ∃ new ready q, p.addRelevance (Setup.plain 0) 1 (some .corner) 0 true
        = (true, q)
      ∧ p.Tracked (Setup.plain 0) (.seenAt 1 .corner 0 true) new ready q
      ∧ new.map (fun c => Provider.taskFor (Setup.plain 0) c p.state)
        = [.generate ⟨2147483645, 0, 2147483645⟩,
          .generate ⟨2147483646, 0, 2147483645⟩,
          .generate ⟨2147483647, 0, 2147483645⟩,
          .generate ⟨2147483645, 0, 2147483646⟩,
          .generate ⟨2147483646, 0, 2147483646⟩,
          .generate ⟨2147483645, 0, 2147483647⟩,
          .load ⟨2147483646, 0, 2147483647⟩] := by
  intro p
  have hacts : ∀ a ∈ Act.prepareCorner, a ≠ .dispose := by decide
  obtain ⟨new, ready, q, hq, htracked, hnew, -⟩ :=
    (tracking_claims_footprint (start_plain 0) hacts 1 0 true).1
      (by decide +kernel) .corner
  refine ⟨new, ready, q, hq, htracked, ?_⟩
  rw [hnew]
  decide +kernel

end ChunkStream
