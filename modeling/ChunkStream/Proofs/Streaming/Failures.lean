import ChunkStream.Proofs.Streaming.Filing
import ChunkStream.Proofs.Streaming.Finishing
import ChunkStream.Proofs.Streaming.Handing
import ChunkStream.Proofs.Streaming.Sharing
import ChunkStream.Proofs.Streaming.Tracking

/-!
# Tasks that fail

A production fails when work is cancelled, or when the far tier or the generator
gives no chunk.  Nothing has been touched by then but the claim, which goes back
in any case, so the coordinate is as free as before its first request.  The next
request asks the far tier anew whether to load or to generate.  It comes to the
same answer exactly when the far tier gives the same answer.  Others may have
taken the chunk away that was to be loaded, or may have put one where one was to
be generated.

A review fails when finishing does.  It has touched the content of the chunk by
then, and nothing else.
-/

namespace ChunkStream

variable {σ : Type} {setup : Setup σ} {changes : σ → σ → Prop}
  {p q : Provider σ} {s t u : Session σ} {c : Coord} {task : Task}
  {queue : TaskQueue}

/-! ## What a failure leaves behind -/

/-- The entry is the call of a task that fails, or the remark on its failure. -/
def JournalEntry.isFailureOf (task : Task) : JournalEntry → Bool
  | .called (.load c) => task = .load c
  | .called (.generate c) => task = .generate c
  | .called (.finish _) => task.isReview
  | .noted (.pipeline (.cancelled t)) => t = task
  | .noted (.pipeline (.failed t _)) => t = task
  | .noted (.pipeline (.faulted t)) => t = task
  | _ => false

/-- A task has been taken out of the queue and has failed.  Besides the counter
of failures and entries on the failure in the journal only the near cache and
the claims may have changed. -/
structure Provider.Failed (task : Task) (queue : TaskQueue)
    (near : Table Coord Resident) (claims : List Coord)
    (p q : Provider σ) : Prop where
  frame : q = { p with pipeline := { p.pipeline with
    state := { p.state with
      near := near
      preparing := claims
      journal := q.state.journal }
    queue := queue
    failed := q.pipeline.failed } }
  journal : ∃ es, q.state.journal = es ++ p.state.journal
    ∧ ∀ e ∈ es, e.isFailureOf task = true

namespace Production

/-- The task cannot get its chunk. -/
def Fails (setup : Setup σ) (cancelled : Bool) (task : Task)
    (s : StreamState σ) : Prop :=
  cancelled = true ∨ ∀ chunk, ¬ Acquires setup s.far task chunk

theorem produce_of_fails {cancelled : Bool} {s : StreamState σ}
    (hproduction : task.isReview = false)
    (h : Fails setup cancelled task s) :
    ∃ es failure, (∀ e ∈ es, e.isFailureOf task = true)
      ∧ produce setup cancelled task s
        = { state := unclaim task.coord { s with journal := es ++ s.journal }
            outcome := .error failure } := by
  cases cancelled with
  | true => exact ⟨[], .error .cancelled, by simp, by simp [produce]⟩
  | false =>
    have hnone := h.resolve_left Bool.false_ne_true
    obtain ⟨-, hgot⟩ := acquire_spec setup task s
    obtain ⟨call, hcall, hentry⟩ : ∃ call, (acquire setup task s).2
        = s.record (.called call)
          ∧ JournalEntry.isFailureOf task (.called call) = true := by
      cases task with
      | load c => exact ⟨.load c, rfl, by simp [JournalEntry.isFailureOf]⟩
      | generate c =>
        exact ⟨.generate c, rfl, by simp [JournalEntry.isFailureOf]⟩
      | review c => cases hproduction
    cases hacquire : acquire setup task s with
    | mk result u =>
      rw [hacquire] at hgot hcall
      cases result with
      | ok chunk => exact absurd ((hgot chunk).1 rfl) (hnone chunk)
      | error failure =>
        refine ⟨[.called call], failure, by simpa using hentry, ?_⟩
        obtain rfl : u = s.record (.called call) := hcall
        simp only [produce, hacquire, Bool.false_eq_true, if_false]
        rfl

/-- A review whose finishing fails keeps what finishing made of the content. -/
theorem review_of_fails {s : StreamState σ} {chunk next : Chunk}
    {cause : Failure GenerateError} (hfinishable : s.isFinishable c = true)
    (hchunk : s.chunk? c = some chunk)
    (hfinish : setup.generator.finish chunk = (next, .error cause)) :
    ∃ failure, review setup c s
      = { state := (s.record (.called (.finish chunk.coord))).adjustChunk c
            fun _ => next
          outcome := .error failure } := by
  obtain ⟨chunk', hchunk', -, hreview⟩ := review_of_finishable setup hfinishable
  rw [hchunk, Option.some.injEq] at hchunk'
  subst hchunk'
  rw [hreview]
  cases cause with
  | error cause =>
    exact ⟨.error (.generate cause), by simp only [finishChunk, hfinish]⟩
  | fault cause => exact ⟨.fault cause, by simp only [finishChunk, hfinish]⟩

end Production

/-- A failure is counted or not, and remarked upon. -/
theorem Pipeline.conclude_of_error (setup : Setup σ) (task : Task)
    (failure : Failure TaskError) (p : Pipeline (StreamState σ)) :
    ∃ e failed, JournalEntry.isFailureOf task e = true
      ∧ conclude (Production.handler setup) task (.error failure) p
        = { p with state := p.state.record e, failed := failed } := by
  cases failure with
  | fault cause =>
    exact ⟨.noted (.pipeline (.faulted task)), _,
      by simp [JournalEntry.isFailureOf], rfl⟩
  | error cause =>
    cases cause with
    | cancelled =>
      exact ⟨.noted (.pipeline (.cancelled task)), _,
        by simp [JournalEntry.isFailureOf], rfl⟩
    | generate cause =>
      exact ⟨.noted (.pipeline (.failed task (.generate cause))), _,
        by simp [JournalEntry.isFailureOf], rfl⟩
    | store cause =>
      exact ⟨.noted (.pipeline (.failed task (.store cause))), _,
        by simp [JournalEntry.isFailureOf], rfl⟩
    | missing c =>
      exact ⟨.noted (.pipeline (.failed task (.missing c))), _,
        by simp [JournalEntry.isFailureOf], rfl⟩

/-- The worker runs the task that it takes. -/
theorem Provider.failed_of_run (setup : Setup σ)
    (hpop : p.pipeline.queue.pop? (Production.priority p.state)
      = some (task, queue)) {es : List JournalEntry}
    {near : Table Coord Resident} {claims : List Coord}
    {failure : Failure TaskError}
    (hes : ∀ e ∈ es, e.isFailureOf task = true)
    (hrun : Production.run setup p.pipeline.cancelled task p.state
      = { state := { p.state with
            near := near
            preparing := claims
            journal := es ++ p.state.journal }
          outcome := .error failure }) :
    ∃ q, p.work? setup = some q ∧ Failed task queue near claims p q := by
  have hhandler (cancelled : Bool) (task : Task) (s : StreamState σ) :
      (Production.handler setup).run cancelled task s
        = Production.run setup cancelled task s := rfl
  have hpriority (s : StreamState σ) :
      (Production.handler setup).priority s = Production.priority s := rfl
  have hstate : p.pipeline.state = p.state := rfl
  obtain ⟨e, failed, he, hconclude⟩ := Pipeline.conclude_of_error setup task
    failure
    { p.pipeline with
      state := { p.state with
        near := near, preparing := claims, journal := es ++ p.state.journal }
      queue := queue }
  refine ⟨{ p with pipeline := { p.pipeline with
      state := { p.state with
        near := near
        preparing := claims
        journal := e :: (es ++ p.state.journal) }
      queue := queue
      failed := failed } }, ?_, ⟨rfl, e :: es, rfl, ?_⟩⟩
  · rw [work?, Pipeline.work?, hpriority, hstate, hpop]
    simp only [Pipeline.runTask, hhandler, hrun, Option.map_some,
      Pipeline.followUp, List.flatMap_nil, List.foldl_nil, Bool.or_false,
      Nat.add_sub_cancel]
    rw [hconclude]
    rfl
  · intro d hd
    rcases List.mem_cons.1 hd with rfl | hd
    · exact he
    · exact hes d hd

/-! ## A failed task -/

/-- Finishing that fails leaves the lock alone. -/
def Generator.KeepsLock (g : Generator) : Prop :=
  ∀ chunk next cause, g.finish chunk = (next, .error cause) →
    next.locked = chunk.locked

theorem Heightfield.keepsLock (heights : HeightMap) (p : TerrainParams) :
    (ofHeights heights p).KeepsLock := by
  intro chunk next cause hfinish
  obtain rfl : (finish chunk).1 = next := congrArg Prod.fst hfinish
  rw [finish_frame]

theorem Script.keepsLock {s : Script}
    (hothers : ∀ g, s.others = some g → g.KeepsLock) :
    s.generator.KeepsLock := by
  intro chunk next cause hfinish
  rcases s.finish_cases chunk with ⟨g, hg, hsame⟩ | hsame
  · exact hothers g hg chunk next cause (hsame.symm.trans hfinish)
  · rw [hfinish] at hsame
    exact congrArg Chunk.locked hsame

namespace Provider

/-- A request for what is neither resident nor claimed is accepted. -/
theorem request_of_free (hp : Claims p) (hopen : p.pipeline.stopped = false)
    (hfree : ¬ p.state.Holds c) :
    p.pipeline.request (Production.handler setup) c
      = (true, (p.claim setup c).pipeline) := by
  rw [request_eq hp.closed, if_neg]
  rintro (hstopped | hheld)
  · rw [hopen] at hstopped
    cases hstopped
  · exact hfree hheld

/-- A production that fails gives its claim back and leaves all else alone. -/
theorem failed_production (hp : Claims p)
    (hpop : p.pipeline.queue.pop? (Production.priority p.state)
      = some (task, queue)) (hproduction : task.isReview = false)
    (hfails : Production.Fails setup p.pipeline.cancelled task p.state) :
    ∃ q, p.work? setup = some q
      ∧ Failed task queue p.state.near (p.state.preparing.erase task.coord) p q
      ∧ q.pipeline.stopped = false ∧ ¬ q.state.Holds task.coord := by
  obtain ⟨es, failure, hes, hproduce⟩ :=
    Production.produce_of_fails hproduction hfails
  obtain ⟨q, hq, hfailed⟩ := failed_of_run setup hpop hes
    ((Production.run_production _ hproduction p.state).trans hproduce)
  have hopen := hp.opened_of_work? hq
  have hclaimed : task.coord ∈ p.state.preparing := by
    rw [hp.perm.mem_iff, Task.mem_productions]
    exact ⟨task, (TaskQueue.perm_pop hp.ticketed hpop).mem_iff.2
      List.mem_cons_self, hproduction, rfl⟩
  have hstopped : q.pipeline.stopped = p.pipeline.stopped :=
    congrArg (fun q => q.pipeline.stopped) hfailed.frame
  have hnear : q.state.near = p.state.near :=
    congrArg (fun q => q.state.near) hfailed.frame
  have hpreparing : q.state.preparing = p.state.preparing.erase task.coord :=
    congrArg (fun q => q.state.preparing) hfailed.frame
  refine ⟨q, hq, hfailed, hstopped.trans hopen, ?_⟩
  rintro (hresident | hclaim)
  · rw [StreamState.isResident_congr hnear, hp.absent _ hclaimed] at hresident
    cases hresident
  · rw [hpreparing] at hclaim
    exact hp.nodup.not_mem_erase hclaim

/-- A review whose finishing fails keeps its chunk, incomplete and unlocked, and
leaves all but the content of that chunk alone. -/
theorem failed_review (htag : setup.generator.KeepsTag)
    (hlock : setup.generator.KeepsLock)
    (hpop : p.pipeline.queue.pop? (Production.priority p.state)
      = some (.review c, queue)) (hfinishable : p.state.isFinishable c = true)
    {chunk next : Chunk} {cause : Failure GenerateError}
    (hchunk : p.state.chunk? c = some chunk)
    (hfinish : setup.generator.finish chunk = (next, .error cause)) :
    ∃ q, p.work? setup = some q
      ∧ Failed (.review c) queue
        (p.state.adjustChunk c fun _ => next).near p.state.preparing p q
      ∧ q.state.chunk? c = some next
      ∧ next.isComplete = false ∧ next.locked = false := by
  obtain ⟨failure, hreview⟩ :=
    Production.review_of_fails hfinishable hchunk hfinish
  have hes : ∀ e ∈ [JournalEntry.called (.finish chunk.coord)],
      e.isFailureOf (.review c) = true := by
    simp [JournalEntry.isFailureOf, Task.isReview]
  obtain ⟨q, hq, hfailed⟩ := failed_of_run setup hpop hes hreview
  have hnear : q.state.near
      = (p.state.adjustChunk c fun _ => next).near :=
    congrArg (fun q => q.state.near) hfailed.frame
  obtain ⟨hincomplete, hunlocked⟩ :
      chunk.isComplete = false ∧ chunk.locked = false := by
    simp only [StreamState.isFinishable, StreamState.isUnfinished, hchunk,
      Option.any_some, Bool.and_eq_true, Bool.not_eq_true'] at hfinishable
    exact ⟨hfinishable.1.1, hfinishable.2⟩
  refine ⟨q, hq, hfailed, ?_, ?_, ?_⟩
  · rw [StreamState.chunk?_congr hnear, StreamState.chunk?_adjustChunk,
      hchunk]
    simp
  · rw [Chunk.isComplete, htag chunk next cause hfinish]
    exact hincomplete
  · rw [hlock chunk next cause hfinish]
    exact hunlocked

end Provider

/-- A production that fails, in whatever way, changes nothing but the claim on
its coordinate, which is free again: the next request before the end is
accepted, and gets the task that the far tier asks for then.  That is the same
task exactly when the far tier gives the same answer as at the moment `r` when
the task was queued.  So what could not be loaded is loaded again where the far
tier does not lose it; and it is the same task in any case where only an
accepted chunk of the coordinate matters to the answer and resident chunks are
at their own coordinates.

When finishing fails, the chunk stays resident, incomplete and unlocked, and
nothing but its content has changed. -/
theorem failed_task_frees_claim {world : String} {workers : Nat} {far : σ}
    (htag : setup.generator.KeepsTag) (hlock : setup.generator.KeepsLock)
    (hstart : Provider.start setup world workers far = .ok p)
    (hrun : Relation.ReflTransGen (Session.Shared setup changes)
      (.ofProvider p) s)
    (hpop : s.provider.pipeline.queue.pop?
      (Production.priority s.provider.state) = some (task, queue)) :
    let s' := s.step setup .work
    let st := s.provider.state
    s.provider.pipeline.queue.tasks.Perm (task :: queue.tasks)
      ∧ (task.isReview = false →
        Production.Fails setup s.provider.pipeline.cancelled task st →
        s.provider.Failed task queue st.near (st.preparing.erase task.coord)
            s'.provider
          ∧ task.coord ∉ s'.provider.state.preparing
          ∧ ∃ r, Relation.ReflTransGen (Session.Shared setup changes)
              (.ofProvider p) r
            ∧ task ∉ r.provider.pipeline.queue.tasks
            ∧ Session.Waiting setup changes task r s
            ∧ task = Provider.taskFor setup task.coord r.provider.state
            ∧ ∀ u, Session.Awaiting setup changes task.coord s' u →
              let again := Provider.taskFor setup task.coord u.provider.state
              u.provider.pipeline.request (Production.handler setup) task.coord
                  = (true, (u.provider.claim setup task.coord).pipeline)
                ∧ (u.provider.claim setup task.coord).pipeline.queue.tasks
                  = again :: u.provider.pipeline.queue.tasks
                ∧ (again = task ↔
                  setup.tier.contains task.coord u.provider.state.far
                    = setup.tier.contains task.coord r.provider.state.far)
                ∧ (task = .load task.coord →
                  setup.tier.Lasting changes task.coord → again = task)
                ∧ (setup.tier.PutsOnly changes task.coord →
                  (∀ v, Relation.ReflTransGen (Session.Shared setup changes)
                      (.ofProvider p) v →
                    ∀ d chunk, v.provider.state.chunk? d = some chunk →
                      chunk.coord = d) → again = task))
      ∧ ∀ c chunk next cause, task = .review c → st.isFinishable c = true →
        st.chunk? c = some chunk →
        setup.generator.finish chunk = (next, .error cause) →
        s.provider.Failed task queue (st.adjustChunk c fun _ => next).near
            st.preparing s'.provider
          ∧ s'.provider.state.chunk? c = some next
          ∧ next.isComplete = false ∧ next.locked = false := by
  intro s' st
  have hs := Session.Shared.claims_of_reaches (.start hstart) hrun
  have hperm := TaskQueue.perm_pop hs.ticketed hpop
  have hstep : Session.Shared setup changes s s' := .next (.act s .work)
  have hworked {q : Provider σ} (hq : s.provider.work? setup = some q) :
      s'.provider = q := by
    show (s.provider.work? setup).getD s.provider = q
    rw [hq, Option.getD_some]
  have hwaits : task ∈ s.provider.pipeline.queue.tasks :=
    hperm.mem_iff.2 List.mem_cons_self
  refine ⟨hperm, ?_, ?_⟩
  · intro hproduction hfails
    obtain ⟨q, hq, hfailed, hopened, hfree⟩ :=
      Provider.failed_production hs hpop hproduction hfails
    have hs' := hstep.claims hs
    obtain rfl := hworked hq
    obtain ⟨r, hreach, hnew, hwaiting, hasked, habsent⟩ :=
      Session.exists_request hstart hrun hwaits hproduction
    have hr := Session.Shared.claims_of_reaches (.start hstart) hreach
    obtain ⟨hlacking, -, hmissing⟩ := hwaiting.lacking hr hproduction habsent
    refine ⟨hfailed, fun hclaim => hfree (.inr hclaim), r, hreach, hnew,
      hwaiting, hasked, ?_⟩
    intro u hu again
    obtain ⟨hopen, hfree'⟩ := hu.free hopened hfree
    have hsince : Session.Lacking setup changes task.coord r u :=
      (hlacking.tail ⟨hstep, hmissing, hopened⟩).trans (hu.lacking hfree)
    have hagain : again = task ↔
        setup.tier.contains task.coord u.provider.state.far
          = setup.tier.contains task.coord r.provider.state.far := by
      rw [← Provider.taskFor_eq_iff, ← hasked]
    refine ⟨Provider.request_of_free (hu.claims hs') hopen hfree',
      TaskQueue.tasks_enqueue, hagain, ?_, ?_⟩
    · intro hload htier
      rw [hload] at hasked
      have hbefore := (Provider.load_eq_taskFor_iff.1 hasked).2
      rw [hagain]
      exact (hsince.contains_of_contains htier hr hbefore).trans hbefore.symm
    · intro htier hplaces
      rw [hagain]
      exact hsince.contains_eq htier (fun v hv => hplaces v (hreach.trans hv))
        hr
  · rintro c chunk next cause rfl hfinishable hchunk hfinish
    obtain ⟨q, hq, hfailed⟩ := Provider.failed_review htag hlock hpop
      hfinishable hchunk hfinish
    rw [hworked hq]
    exact hfailed

/-! ## A scripted world -/

theorem Script.proper {s : Script}
    (hothers : ∀ g, s.others = some g → g.Proper) : s.generator.Proper where
  generate c chunk h := by
    rcases generate_cases h with ⟨g, hg, h⟩ | ⟨completion, rfl⟩
    · exact (hothers g hg).generate c chunk h
    · exact (Chunk.proper_ofBuffer_iff (storable_air c) _).2 ⟨rfl, rfl⟩
  finish c chunk h := by
    rcases s.finish_cases chunk with ⟨g, hg, hsame⟩ | hsame
    · rw [hsame]
      exact (hothers g hg).finish c chunk h
    · rwa [hsame]

/-- Chunks stay proper as long as others put nothing else into the far tier. -/
theorem Provider.Proper.shared {setup : Setup FarStore}
    {changes : FarStore → FarStore → Prop} {s t : Session FarStore}
    (hs : Proper s.provider) (htier : setup.tier = FarStore.tier)
    (hgenerator : setup.generator.Proper)
    (hchanges : ∀ far next, changes far next → far.Proper → next.Proper)
    (h : Session.Shared setup changes s t) : Proper t.provider := by
  have hclaims := h.claims hs.claims
  cases h with
  | far far h =>
    exact ⟨hclaims, hs.aged.of_near rfl rfl,
      hs.state.near, hchanges _ _ h hs.state.far⟩
  | next h =>
    cases h with
    | act a => exact hs.step htier hgenerator a
    | cancel => exact ⟨hclaims, hs.aged, hs.state⟩
    | reorder u h =>
      exact ⟨hclaims, h.wellAged hs.aged, hs.state.reorder hs.aged h⟩

theorem Provider.Proper.reaches {setup : Setup FarStore}
    {changes : FarStore → FarStore → Prop} {s t : Session FarStore}
    (hs : Proper s.provider) (htier : setup.tier = FarStore.tier)
    (hgenerator : setup.generator.Proper)
    (hchanges : ∀ far next, changes far next → far.Proper → next.Proper)
    (h : Relation.ReflTransGen (Session.Shared setup changes) s t) :
    Proper t.provider := by
  induction h with
  | refl => exact hs
  | tail _ hstep ih => exact ih.shared htier hgenerator hchanges hstep

/-- Somebody else puts a chunk of some kind. -/
def FarStore.Puts (P : Chunk → Prop) (far next : FarStore) : Prop :=
  ∃ chunk, P chunk ∧ tier.put chunk far = .ok next

theorem FarStore.lasting_puts (P : Chunk → Prop) (c : Coord) :
    tier.Lasting (Puts P) c := by
  have hput (chunk : Chunk) (far next : FarStore)
      (hput : tier.put chunk far = .ok next)
      (hc : tier.contains c far = true) : tier.contains c next = true := by
    rw [contains_of_put hput, hc, Bool.or_true]
  exact ⟨hput, fun far next ⟨chunk, _, h⟩ => hput chunk far next h⟩

/-- Whoever puts chunks elsewhere does not matter to a coordinate. -/
theorem FarStore.putsOnly_puts {P : Chunk → Prop} {c : Coord}
    (hP : ∀ chunk, P chunk → chunk.coord ≠ c) : tier.PutsOnly (Puts P) c where
  put _ _ _ hput := contains_of_put hput c
  others far next h := by
    obtain ⟨chunk, hchunk, hput⟩ := h
    rw [contains_of_put hput, decide_eq_false (Ne.symm (hP chunk hchunk)),
      Bool.false_or]

/-- The stored world with a generator that follows a script. -/
def Setup.scripted (behaviors : Table Coord Behavior) : Setup FarStore :=
  { Setup.stored 0 with
    generator := (Script.mk behaviors .complete none).generator }

/-- The origin cannot be generated, and the corner cannot be finished. -/
def Setup.failing : Setup FarStore :=
  .scripted [(.origin, .fails), (.corner, .finishFails)]

/-- Who is served comes out of the queue with what is left of it. -/
theorem TaskQueue.exists_pop?_of_served {q : TaskQueue} {priority : Priority}
    (h : (q.pop? priority).map (·.1) = some task) :
    ∃ queue, q.pop? priority = some (task, queue) := by
  obtain ⟨⟨task', queue⟩, hpop, rfl⟩ := Option.map_eq_some_iff.1 h
  exact ⟨queue, hpop⟩

/-- A proper chunk of another coordinate. -/
def Chunk.IsBeside (c : Coord) (chunk : Chunk) : Prop :=
  chunk.coord ≠ c ∧ chunk.Proper chunk.coord

/-- The generation of the origin fails.  Nothing is left of it, and whenever the
origin is requested next, the same task waits again, whatever others put
elsewhere.  Loading it is cancelled; then it waits to be loaded again, whatever
others put anywhere.  Finishing the corner fails too: its chunk stays,
incomplete and unlocked, and no task is left. -/
theorem failed_task_frees_claim_of_failing :
    let setup := Setup.failing
    let s := (Session.ofProvider (.stored 0)).run setup [.request .origin]
    let v := ((Session.ofProvider (.labelled .origin)).run setup
      [.request .origin]).mapProvider fun p =>
        { p with pipeline := p.pipeline.cancel }
    let t := (Session.ofProvider (.stored 0)).run setup
      ([.requestBox (.neighborhood .corner)] ++ List.replicate 12 .work)
    (∃ queue : TaskQueue, queue.tasks = []
        ∧ s.provider.Failed (.generate .origin) queue [] []
          (s.step setup .work).provider
        ∧ ∀ u, Session.Awaiting setup (FarStore.Puts (Chunk.IsBeside .origin))
            .origin (s.step setup .work) u →
          (u.provider.claim setup .origin).pipeline.queue.tasks
            = .generate .origin :: u.provider.pipeline.queue.tasks)
      ∧ (∀ u, Session.Awaiting setup (FarStore.Puts fun _ => True) .origin
            (v.step setup .work) u →
          (u.provider.claim setup .origin).pipeline.queue.tasks
            = .load .origin :: u.provider.pipeline.queue.tasks)
      ∧ ∃ queue next, queue.tasks = []
        ∧ t.provider.Failed (.review .corner) queue
          (t.provider.state.adjustChunk .corner fun _ => next).near []
          (t.step setup .work).provider
        ∧ (t.step setup .work).provider.state.chunk? .corner = some next
        ∧ next.isComplete = false ∧ next.locked = false := by
  intro setup s v t
  have hothers {P : Generator → Prop} (g : Generator)
      (h : (none : Option Generator) = some g) : P g := by cases h
  have htag : setup.generator.KeepsTag := Script.keepsTag hothers
  have hlock : setup.generator.KeepsLock := Script.keepsLock hothers
  have hstart : Provider.start setup "stored" 1 .empty = .ok (.stored 0) := rfl
  have hlabelled : Provider.start setup "stored" 1 (.labelled .origin)
      = .ok (.labelled .origin) := rfl
  refine ⟨?_, ?_, ?_⟩
  · obtain ⟨queue, hpop⟩ := TaskQueue.exists_pop?_of_served
      (show (s.provider.pipeline.queue.pop?
          (Production.priority s.provider.state)).map (·.1)
        = some (.generate .origin) by decide +kernel)
    have hrun : Relation.ReflTransGen
        (Session.Shared setup (FarStore.Puts (Chunk.IsBeside .origin)))
        (.ofProvider (.stored 0)) s := Session.Shared.reaches_run _ _
    obtain ⟨hperm, hfailed, -⟩ :=
      failed_task_frees_claim htag hlock hstart hrun hpop
    obtain ⟨hfailed, -, r, -, -, -, -, hagain⟩ :=
      hfailed rfl (.inr fun chunk h => by cases h)
    have htasks : s.provider.pipeline.queue.tasks = [.generate .origin] := by
      decide +kernel
    rw [htasks] at hperm
    refine ⟨queue, by simpa using hperm, hfailed, ?_⟩
    intro u hu
    obtain ⟨-, htasks, -, -, hsame⟩ := hagain u hu
    have hempty : (Session.ofProvider (Provider.stored 0)).provider.Proper :=
      .start (fun c chunk h => by cases h) hstart
    have hputs (far next : FarStore)
        (h : FarStore.Puts (Chunk.IsBeside .origin) far next)
        (hfar : far.Proper) : next.Proper := by
      obtain ⟨chunk, hchunk, hput⟩ := h
      exact hfar.put hchunk.2 hput
    rw [hsame (FarStore.putsOnly_puts fun _ h => h.1)] at htasks
    · exact htasks
    · intro v hv d chunk hd
      have hproper := hempty.reaches rfl (Script.proper hothers) hputs hv
      exact (hproper.state.near d chunk hd).coord
  · intro u hu
    obtain ⟨queue, hpop⟩ := TaskQueue.exists_pop?_of_served
      (show (v.provider.pipeline.queue.pop?
          (Production.priority v.provider.state)).map (·.1)
        = some (.load .origin) by decide +kernel)
    have hrun : Relation.ReflTransGen
        (Session.Shared setup (FarStore.Puts fun _ => True))
        (.ofProvider (.labelled .origin)) v :=
      (Session.Shared.reaches_run _ _).tail (.next (.cancel _))
    obtain ⟨-, hfailed, -⟩ :=
      failed_task_frees_claim htag hlock hlabelled hrun hpop
    have hraised : v.provider.pipeline.cancelled = true := by decide +kernel
    obtain ⟨-, -, r, -, -, -, -, hagain⟩ := hfailed rfl (.inl hraised)
    obtain ⟨-, htasks, -, hsame, -⟩ := hagain u hu
    rw [hsame rfl (FarStore.lasting_puts _ _)] at htasks
    exact htasks
  · obtain ⟨queue, hpop⟩ := TaskQueue.exists_pop?_of_served
      (show (t.provider.pipeline.queue.pop?
          (Production.priority t.provider.state)).map (·.1)
        = some (.review .corner) by decide +kernel)
    have hrun : Relation.ReflTransGen
        (Session.Shared setup (FarStore.Puts fun _ => True))
        (.ofProvider (.stored 0)) t := Session.Shared.reaches_run _ _
    obtain ⟨hperm, -, hreview⟩ :=
      failed_task_frees_claim htag hlock hstart hrun hpop
    have htasks : t.provider.pipeline.queue.tasks = [.review .corner] := by
      decide +kernel
    have hclaims : t.provider.state.preparing = [] := by decide +kernel
    have hfinishable : t.provider.state.isFinishable .corner = true := by
      decide +kernel
    have hchunk : t.provider.state.chunk? .corner
        = some ⟨.corner, .incomplete, false,
          some ⟨.corner, Dims.cube 2, Array.replicate 8 .air⟩⟩ := by
      decide +kernel
    obtain ⟨hfailed, hrest⟩ :=
      hreview _ _ _ _ rfl hfinishable hchunk rfl
    rw [hclaims] at hfailed
    rw [htasks] at hperm
    exact ⟨queue, _, by simpa using hperm, hfailed, hrest⟩

/-! ## A chunk that is taken away -/

/-- Somebody else takes a chunk off the shelf. -/
def FarTier.Taken (far next : Table Coord Chunk) : Prop :=
  ∃ c, next = Table.erase far c

/-- The origin is to be loaded, but its chunk is taken off the shelf before the
worker comes to it.  When the origin is requested again, it is to be
generated. -/
theorem not_same_task_again :
    ¬ ∀ (setup : Setup (Table Coord Chunk))
      (changes : Table Coord Chunk → Table Coord Chunk → Prop)
      (world : String) (workers : Nat) (far : Table Coord Chunk)
      (p : Provider (Table Coord Chunk)) (s u : Session (Table Coord Chunk))
      (task : Task) (queue : TaskQueue),
      Provider.start setup world workers far = .ok p →
      Relation.ReflTransGen (Session.Shared setup changes) (.ofProvider p) s →
      s.provider.pipeline.queue.pop? (Production.priority s.provider.state)
        = some (task, queue) → task.isReview = false →
      Production.Fails setup s.provider.pipeline.cancelled task
        s.provider.state →
      Session.Awaiting setup changes task.coord (s.step setup .work) u →
      task ∈ (u.step setup (.request task.coord)).provider.pipeline.queue.tasks
      := by
  intro h
  let setup := Setup.plain 8
  let chunk : Chunk := ⟨.origin, .complete, false, none⟩
  let shelf : Table Coord Chunk := [(.origin, chunk)]
  let p := (Provider.plain 8).modifyState ({ · with far := shelf })
  let r := (Session.ofProvider p).run setup [.request .origin]
  let s := r.mapProvider (·.modifyState ({ · with far := [] }))
  have hrun : Relation.ReflTransGen (Session.Shared setup FarTier.Taken)
      (.ofProvider p) s :=
    (Session.Shared.reaches_run _ _).tail (.far r [] ⟨.origin, rfl⟩)
  obtain ⟨queue, hpop⟩ := TaskQueue.exists_pop?_of_served
    (show (s.provider.pipeline.queue.pop?
        (Production.priority s.provider.state)).map (·.1)
      = some (.load .origin) by decide +kernel)
  have hagain := h setup FarTier.Taken "plain" 1 shelf p s
    (s.step setup .work) _ queue rfl hrun hpop rfl
    (.inr fun chunk h => by cases h) .refl
  have hgenerates : ((s.step setup .work).step setup
      (.request .origin)).provider.pipeline.queue.tasks
        = [.generate .origin] := by
    decide +kernel
  rw [Task.coord, hgenerates] at hagain
  simp at hagain

end ChunkStream
