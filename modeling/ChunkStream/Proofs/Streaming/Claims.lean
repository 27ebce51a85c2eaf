import ChunkStream.Proofs.Streaming.Orders
import ChunkStream.Proofs.Streaming.Sweep

/-!
# One producer for a coordinate

A coordinate is claimed from the moment its production is queued until the task
has ended, and a claimed coordinate is not resident.  `Claims` says so of a
state between steps: the claims are the productions in the queue, each once.
It is an invariant of everything that can happen to a provider, through the end
and after it, also when the token that tasks look at is raised at any moment and
what is kept under keys comes in another order each time.
-/

namespace ChunkStream

variable {σ : Type} {setup : Setup σ} {p q : Provider σ}

/-- What is claimed is what is queued for production, and it is not resident. -/
structure Claims (p : Provider σ) : Prop where
  closed : p.pipeline.queue.closed = p.pipeline.stopped
  halted : p.pipeline.stopped = true → p.pipeline.queue.tasks = []
  ticketed : p.pipeline.queue.Ticketed
  perm : p.state.preparing.Perm (Task.productions p.pipeline.queue.tasks)
  nodup : p.state.preparing.Nodup
  absent : ∀ c ∈ p.state.preparing, p.state.isResident c = false
  free : ∀ c, .noted (.alreadyResident c) ∉ p.state.journal

namespace Claims

/-- Changes of the state that bring no chunk and leave the claims alone. -/
theorem modifyState (hp : Claims p) {f : StreamState σ → StreamState σ}
    (hpreparing : (f p.state).preparing = p.state.preparing)
    (hresident : ∀ c, (f p.state).isResident c = true →
      p.state.isResident c = true)
    (hjournal : ∀ c, .noted (.alreadyResident c) ∈ (f p.state).journal →
      .noted (.alreadyResident c) ∈ p.state.journal) :
    Claims (p.modifyState f) := by
  refine ⟨hp.closed, hp.halted, hp.ticketed, ?_, ?_, ?_, ?_⟩
  · rw [show (p.modifyState f).state = f p.state from rfl, hpreparing]
    exact hp.perm
  · rw [show (p.modifyState f).state = f p.state from rfl, hpreparing]
    exact hp.nodup
  · intro c hc
    rw [show (p.modifyState f).state = f p.state from rfl, hpreparing] at hc
    have habsent := hp.absent c hc
    rw [← Bool.not_eq_true] at habsent ⊢
    exact mt (hresident c) habsent
  · intro c hc
    exact hp.free c (hjournal c hc)

theorem of_sameStock (hp : Claims p) {f : StreamState σ → StreamState σ}
    (h : SameStock p.state (f p.state)) : Claims (p.modifyState f) :=
  hp.modifyState h.preparing
    (fun c hc => by rwa [StreamState.isResident_congr h.near] at hc)
    fun _ => (h.journal.mem_iff rfl).1

theorem reorder (hp : Claims p) {s : StreamState σ}
    (h : p.state.Reordered s) : Claims (p.modifyState fun _ => s) where
  closed := hp.closed
  halted := hp.halted
  ticketed := hp.ticketed
  perm := h.preparing.trans hp.perm
  nodup := h.preparing.nodup_iff.2 hp.nodup
  absent c hc := (h.isResident c).trans
    (hp.absent c (h.preparing.mem_iff.1 hc))
  free c hc := by
    have hjournal : s.journal = p.state.journal := by rw [h.frame]
    exact hp.free c (hjournal ▸ hc)

/-- Claiming a coordinate that is free and queueing its task. -/
theorem claim (hp : Claims p) (hopen : p.pipeline.stopped = false) {c : Coord}
    (habsent : p.state.isResident c = false) (hfree : c ∉ p.state.preparing) :
    Claims (p.claim setup c) := by
  refine ⟨?_, ?_, hp.ticketed.enqueue, ?_, ?_, ?_, hp.free⟩
  · simpa [Provider.claim] using hp.closed
  · intro h
    simp [Provider.claim, hopen] at h
  · simpa [Provider.claim, Provider.state] using hp.perm.cons c
  · exact List.nodup_cons.2 ⟨hfree, hp.nodup⟩
  · intro d hd
    rcases List.mem_cons.1 hd with rfl | hd
    · exact habsent
    · exact hp.absent d hd

theorem requestChunk (hp : Claims p) (setup : Setup σ) (c : Coord) :
    Claims (p.requestChunk setup c) := by
  rcases Provider.requestChunk_cases setup hp.closed c with
    ⟨-, h⟩ | ⟨hopen, habsent, hfree, h⟩
  · rwa [h]
  · rw [h]
    exact hp.claim hopen habsent hfree

/-! ## A step of the worker -/

/-- A production ends: its claim is given back, and at most its own coordinate
has become resident. -/
theorem produce (setup : Setup σ) (cancelled : Bool) (t : Task)
    {s : StreamState σ}
    (hclaim : t.coord ∈ s.preparing) (hnodup : s.preparing.Nodup)
    (habsent : ∀ c ∈ s.preparing, s.isResident c = false) :
    (Production.produce setup cancelled t s).state.preparing
      = s.preparing.erase t.coord
      ∧ (∀ c ∈ (Production.produce setup cancelled t s).state.preparing,
        (Production.produce setup cancelled t s).state.isResident c = false)
      ∧ ∀ c, .noted (.alreadyResident c)
            ∈ (Production.produce setup cancelled t s).state.journal →
          .noted (.alreadyResident c) ∈ s.journal := by
  rcases Production.produce_cases setup cancelled t s with
    ⟨u, failure, hnote, -, h⟩ | ⟨u, chunk, hnote, -, -, h⟩
  · have hsame := SamePlaces.of_annotated hnote
    rw [h]
    have hpreparing : (Production.unclaim t.coord u).preparing
        = s.preparing.erase t.coord := by
      simp only [Production.unclaim, hsame.preparing]
    refine ⟨hpreparing, ?_, fun c => (hsame.journal.mem_iff rfl).1⟩
    intro c hc
    rw [hpreparing] at hc
    rw [show (Production.unclaim t.coord u).isResident c
      = u.isResident c from rfl,
      hsame.resident]
    exact habsent c (List.mem_of_mem_erase hc)
  · have hsame := SamePlaces.of_annotated hnote
    have hannounce :=
      SamePlaces.announceIfComplete t.coord (Production.settleChunk t chunk u)
    obtain ⟨hsettled, -, -, hjournal⟩ := Production.settleChunk_frame t chunk u
    rw [h]
    have hpreparing : (Production.announceIfComplete t.coord
        (Production.settleChunk t chunk u)).preparing
            = s.preparing.erase t.coord := by
      rw [hannounce.preparing, hsettled, hsame.preparing]
    refine ⟨hpreparing, ?_, ?_⟩
    · intro c hc
      rw [hpreparing, hnodup.mem_erase_iff] at hc
      rw [hannounce.resident, ← Bool.not_eq_true,
        Production.isResident_settleChunk,
        hsame.resident]
      simp [habsent c hc.2, hc.1]
    · intro c hc
      have hplace : u.isResident t.coord = false :=
        (hsame.resident t.coord).trans (habsent t.coord hclaim)
      rw [hannounce.journal.mem_iff rfl, hjournal hplace] at hc
      exact (hsame.journal.mem_iff rfl).1 (List.mem_of_ne_of_mem (by simp) hc)

/-- A worker that finds a task belongs to a pipeline that goes on. -/
theorem opened_of_work? (hp : Claims p) (h : p.work? setup = some q) :
    p.pipeline.stopped = false := by
  rw [← hp.closed, ← Bool.not_eq_true]
  intro hclosed
  rw [Provider.work?_eq_none_iff.2 (.inl hclosed)] at h
  cases h

/-- The worker queues reviews only. -/
theorem mem_tasks_of_work {task : Task} (hp : Claims p)
    (h : p.work? setup = some q) (htask : task ∈ q.pipeline.queue.tasks)
    (hproduction : task.isReview = false) :
    task ∈ p.pipeline.queue.tasks := by
  obtain ⟨t, queue, u, completed, failed, hpop, -, rfl⟩ :=
    Provider.work?_spec h
  have hperm := TaskQueue.perm_pop hp.ticketed hpop
  rcases Pipeline.mem_followUp htask with htask | hreview
  · exact hperm.mem_iff.2 (List.mem_cons_of_mem t htask)
  · rw [hproduction] at hreview
    cases hreview

theorem work (hp : Claims p) (h : p.work? setup = some q) : Claims q := by
  have hopen := hp.opened_of_work? h
  obtain ⟨t, queue, u, completed, failed, hpop, hnote, rfl⟩ :=
    Provider.work?_spec h
  have hsame := SamePlaces.of_annotated hnote
  have hperm := hp.perm.trans
    (Task.perm_productions (TaskQueue.perm_pop hp.ticketed hpop))
  obtain ⟨hticketed, hclosed, hproductions⟩ := Pipeline.followUp_spec
    (p := Production.priority
      (Production.run setup p.pipeline.cancelled t p.state).state)
    (Production.run setup p.pipeline.cancelled t p.state).reviews
      (hp.ticketed.pop hpop)
  obtain ⟨hpreparing, hnodup, habsent, hjournal⟩ :
      u.preparing.Perm (Task.productions queue.tasks) ∧ u.preparing.Nodup
        ∧ (∀ c ∈ u.preparing, u.isResident c = false)
        ∧ ∀ c, .noted (.alreadyResident c) ∈ u.journal →
          .noted (.alreadyResident c) ∈ p.state.journal := by
    cases hreview : t.isReview with
    | true =>
      obtain ⟨c, rfl⟩ := Task.exists_review hreview
      rw [Task.productions_cons, hreview, if_pos rfl] at hperm
      have hplaces := (SamePlaces.review setup c p.state).trans hsame
      rw [hplaces.preparing]
      exact ⟨hperm, hp.nodup,
        fun c hc => (hplaces.resident c).trans (hp.absent c hc),
        fun c => (hplaces.journal.mem_iff rfl).1⟩
    | false =>
      rw [Task.productions_cons, hreview, if_neg (by simp)] at hperm
      rw [Production.run_production _ hreview] at hsame
      obtain ⟨hpreparing, habsent, hjournal⟩ :=
        produce setup p.pipeline.cancelled t
        (hperm.mem_iff.2 List.mem_cons_self) hp.nodup hp.absent
      rw [← hsame.preparing] at hpreparing habsent
      have herase := hperm.erase t.coord
      rw [List.erase_cons_head, ← hpreparing] at herase
      refine ⟨herase, ?_, fun c hc => (hsame.resident c).trans (habsent c hc),
        fun c hc => hjournal c ((hsame.journal.mem_iff rfl).1 hc)⟩
      rw [hpreparing]
      exact hp.nodup.erase t.coord
  refine ⟨(hclosed.trans (TaskQueue.closed_pop hpop)).trans hp.closed,
    ?_, hticketed, ?_, hnodup, habsent,
    fun c hc => hp.free c (hjournal c hc)⟩
  · intro hs
    rw [hopen] at hs
    exact absurd hs (by simp)
  · show u.preparing.Perm _
    rwa [hproductions]

theorem advance (hp : Claims p) (h : Provider.Advance setup p q) :
    Claims q := by
  cases h with
  | beside h => exact hp.of_sameStock h
  | request c => exact hp.requestChunk setup c
  | work h => exact hp.work h

theorem advances (hp : Claims p) (h : Provider.Advances setup p q) : Claims q :=
  h.preserve (fun _ _ hstep hp => hp.advance hstep) hp

/-- What each operation preserves where claims are sound, a chain preserves. -/
theorem preserve {P : Provider σ → Prop} (hp : Claims p)
    (h : Provider.Advances setup p q)
    (hP : ∀ q r, Claims q → Provider.Advance setup q r → P q → P r)
    (hstart : P p) : P q := by
  have hboth : Claims q ∧ P q := by
    refine h.preserve (P := fun q => Claims q ∧ P q) ?_ ⟨hp, hstart⟩
    rintro q r hstep ⟨hq, hPq⟩
    exact ⟨hq.advance hstep, hP q r hq hstep hPq⟩
  exact hboth.2

/-! ## A cycle, and the end -/

theorem update (hp : Claims p) (positions : ObserverId → Option Coord) :
    Claims (p.update setup positions) := by
  have hfollow := hp.advances (Provider.advances_publishing setup positions p)
  rw [Provider.update_eq]
  exact hfollow.modifyState
    (f := fun s => Provider.compact setup (Provider.drainSignals s))
    (preparing_compact setup _)
      (fun c hc => ((isResident_compact setup _ c).1 hc).1)
    fun c => free_compact setup

theorem asides_flushChunk (setup : Setup σ) (acc : Nat × StreamState σ)
    (c : Coord) :
    Asides acc.2.journal (Provider.flushChunk setup acc c).2.journal := by
  have hdismiss (u : StreamState σ) : (u.dismiss c).journal = u.journal := by
    unfold StreamState.dismiss
    split <;> rfl
  obtain ⟨n, u⟩ := acc
  simp only [Provider.flushChunk]
  split
  · exact .refl _
  · next chunk _ =>
    have hnoted : Asides u.journal
        (if chunk.locked then u.note (.flushedLocked c) else u).journal := by
      split
      · exact .cons rfl _
      · exact .refl _
    split
    · rw [hdismiss]
      exact hnoted.trans (.cons rfl _)
    · rw [hdismiss]
      exact hnoted.trans ((Asides.cons rfl _).trans (.cons rfl _))

theorem asides_flush (setup : Setup σ) (s : StreamState σ) :
    Asides s.journal (Provider.flush setup s).2.journal := by
  have hchunks (cs : List Coord) (acc : Nat × StreamState σ) :
      Asides acc.2.journal
          (cs.foldl (Provider.flushChunk setup) acc).2.journal := by
    induction cs generalizing acc with
    | nil => exact .refl _
    | cons c cs ih => exact (asides_flushChunk setup acc c).trans (ih _)
  exact hchunks (Table.keys s.near) (0, s)

/-- A shutdown leaves a closed queue with nothing in it. -/
theorem shutdown_spec (hp : Claims p) (setup : Setup σ) :
    (p.pipeline.shutdown (Production.handler setup)).stopped = true
      ∧ (p.pipeline.shutdown (Production.handler setup)).queue.closed = true
      ∧ (p.pipeline.shutdown (Production.handler setup)).queue.tasks = []
      ∧ (p.pipeline.shutdown (Production.handler setup)).queue.Ticketed
      ∧ Asides p.state.journal
        (p.pipeline.shutdown (Production.handler setup)).state.journal := by
  have hdiscard (ts : List Task) (s : StreamState σ) :
      (ts.foldl (fun s t => (Production.handler setup).discard t s) s).journal
          = s.journal := by
    induction ts generalizing s with
    | nil => rfl
    | cons t ts ih =>
      rw [List.foldl_cons, ih]
      show (Production.discard t s).journal = s.journal
      unfold Production.discard
      split <;> rfl
  unfold Pipeline.shutdown
  by_cases hstopped : p.pipeline.stopped = true
  · rw [if_pos hstopped]
    exact ⟨hstopped, hp.closed.trans hstopped, hp.halted hstopped,
      hp.ticketed, .refl _⟩
  · rw [if_neg hstopped]
    refine ⟨rfl, rfl, rfl, TaskQueue.ticketed_close, ?_⟩
    have hnotice : Asides p.state.journal
        (if p.pipeline.queue.close.1.isEmpty then p.pipeline.state
          else (Production.handler setup).notify
            (.discarding p.pipeline.queue.close.1.length)
                p.pipeline.state).journal := by
      split
      · exact .refl _
      · exact .cons rfl _
    apply hnotice.trans
    rw [← hdiscard p.pipeline.queue.close.1]
    exact .cons rfl _

theorem dispose (hp : Claims p) : Claims (p.dispose setup) := by
  unfold Provider.dispose
  by_cases hdisposed : p.disposed = true
  · rwa [if_pos hdisposed]
  · rw [if_neg hdisposed]
    obtain ⟨hstopped, hclosed, htasks, hticketed, hjournal⟩ :=
      hp.shutdown_spec setup
    have hflush := hjournal.trans
      (asides_flush setup
        (p.pipeline.shutdown (Production.handler setup)).state)
    have hproductions : Task.productions
        (p.pipeline.shutdown (Production.handler setup)).queue.tasks = [] := by
      rw [htasks, Task.productions_nil]
    cases setup.obstacle with
    | some cause =>
      refine ⟨hclosed.trans hstopped.symm, fun _ => htasks, hticketed, ?_,
        List.nodup_nil,
        fun c hc => absurd hc List.not_mem_nil, fun c hc => hp.free c ?_⟩
      · exact hproductions ▸ List.Perm.refl []
      · exact ((hflush.trans (.cons rfl _)).mem_iff rfl).1 hc
    | none =>
      refine ⟨hclosed.trans hstopped.symm, fun _ => htasks, hticketed, ?_,
        List.nodup_nil,
        fun c hc => absurd hc List.not_mem_nil, fun c hc => hp.free c ?_⟩
      · exact hproductions ▸ List.Perm.refl []
      · exact ((hflush.trans ((Asides.cons rfl _).trans (.cons rfl _))).mem_iff
          rfl).1 hc

/-! ## Runs -/

theorem start {world : String} {workers : Nat} {far : σ}
    (h : Provider.start setup world workers far = .ok p) : Claims p := by
  obtain ⟨hnote, hqueue, hstopped, -⟩ := Provider.start_spec h
  have hsame := SamePlaces.of_annotated hnote
  have hpreparing : p.state.preparing = [] := hsame.preparing
  refine ⟨?_, ?_, ?_, ?_, ?_, ?_, ?_⟩
  · rw [hqueue, hstopped]
    rfl
  · intro h
    rw [hstopped] at h
    cases h
  · rw [hqueue]
    exact TaskQueue.ticketed_empty
  · rw [hqueue, hpreparing]
    exact .refl []
  · rw [hpreparing]
    exact List.nodup_nil
  · intro c hc
    rw [hpreparing] at hc
    exact absurd hc List.not_mem_nil
  · intro c hc
    exact absurd ((hsame.journal.mem_iff rfl).1 hc) List.not_mem_nil

theorem step {s : Session σ} (hs : Claims s.provider) (a : Act) :
    Claims (s.step setup a).provider := by
  by_cases hcall : a.isCall = true
  · exact hs.advances (Session.advances_step setup hcall s)
  by_cases hhandling : a.isHandling = true
  · obtain ⟨t, ht, h⟩ := Session.handled_step setup hhandling s
    rw [h]
    refine hs.modifyState ?_ ?_ ?_
    · rw [ht.frame]
    · intro c hc
      rwa [ht.isResident] at hc
    · intro c hc
      rwa [ht.frame] at hc
  cases a with
  | update => exact hs.update s.position
  | markReady c => exact hs.modifyState rfl (fun _ => id) (fun _ => id)
  | dispose => exact hs.dispose
  | _ => simp [Act.isCall, Act.isHandling] at hcall hhandling

end Claims

/-- A worker with a task makes a step. -/
theorem Provider.exists_work (setup : Setup σ) {p : Provider σ} {t : Task}
    (hclaims : Claims p) (ht : t ∈ p.pipeline.queue.tasks) :
    ∃ q, p.work? setup = some q := by
  rw [← Option.isSome_iff_exists, Option.isSome_iff_ne_none]
  intro hnone
  have htasks : p.pipeline.queue.tasks = [] := by
    rcases work?_eq_none_iff.1 hnone with hclosed | htasks
    · exact hclaims.halted (hclaims.closed.symm.trans hclosed)
    · exact htasks
  rw [htasks] at ht
  cases ht

/-- What can happen to a session when the token that running tasks look at may
be raised at any time, and chunks, claims, announcements, regions and reports
may be gone through in any order. -/
inductive Session.Next (setup : Setup σ) : Session σ → Session σ → Prop
  | act (s : Session σ) (a : Act) : Next setup s (s.step setup a)
  | cancel (s : Session σ) :
      Next setup s (s.mapProvider fun p =>
        { p with pipeline := p.pipeline.cancel })
  | reorder (s : Session σ) (t : StreamState σ)
      (h : s.provider.state.Reordered t) :
      Next setup s (s.mapProvider (·.modifyState fun _ => t))

/-- The runs of a session are among what can happen to it. -/
theorem Session.reaches_run (setup : Setup σ) (acts : List Act)
    (s : Session σ) :
    Relation.ReflTransGen (Session.Next setup) s (s.run setup acts) := by
  induction acts generalizing s with
  | nil => exact .refl
  | cons a acts ih =>
      exact (Relation.ReflTransGen.single (.act s a)).trans (ih _)

theorem Claims.of_next {s t : Session σ} (h : Session.Next setup s t)
    (hs : Claims s.provider) : Claims t.provider := by
  cases h with
  | act a => exact hs.step a
  | cancel => exact ⟨hs.closed, hs.halted, hs.ticketed, hs.perm, hs.nodup,
      hs.absent, hs.free⟩
  | reorder t h => exact hs.reorder h

/-- At every moment of a session, from its start and beyond its end, the claimed
coordinates are those of the tasks that wait to load or generate, each
coordinate has at most one such task, and none of them is resident.  Hence no
chunk is ever dropped for want of a free place, and requesting what is resident
or in flight changes nothing. -/
theorem single_producer {world : String} {workers : Nat} {far : σ}
    (hstart : Provider.start setup world workers far = .ok p) {s : Session σ}
    (hrun : Relation.ReflTransGen (Session.Next setup) (.ofProvider p) s) :
    (∀ c, c ∈ s.provider.state.preparing ↔
        ∃ t ∈ s.provider.pipeline.queue.tasks, t.isReview = false ∧ t.coord = c)
      ∧ (Task.productions s.provider.pipeline.queue.tasks).Nodup
      ∧ s.provider.state.preparing.Nodup
      ∧ (∀ c ∈ s.provider.state.preparing,
        s.provider.state.isResident c = false)
      ∧ (∀ c, .noted (.alreadyResident c) ∉ s.provider.state.journal)
      ∧ ∀ c, s.provider.state.isResident c = true
        ∨ c ∈ s.provider.state.preparing →
        s.provider.pipeline.request
          (Production.handler setup) c = (false, s.provider.pipeline)
          ∧ s.provider.requestChunk setup c = s.provider := by
  have hs : Claims s.provider := by
    induction hrun with
    | refl => exact Claims.start hstart
    | tail _ hstep ih => exact ih.of_next hstep
  refine ⟨?_, hs.perm.nodup_iff.1 hs.nodup, hs.nodup, hs.absent,
    hs.free, ?_⟩
  · intro c
    rw [hs.perm.mem_iff, Task.mem_productions]
  · intro c hc
    have hnothing : s.provider.pipeline.request (Production.handler setup) c
        = (false, s.provider.pipeline) := by
      rw [Provider.request_eq hs.closed, if_pos (.inr hc)]
    refine ⟨hnothing, ?_⟩
    unfold Provider.requestChunk
    rw [hnothing]

/-- One chunk has been produced and its neighbour waits to be: requesting either
again changes nothing. -/
theorem single_producer_plain :
    let s := (Session.ofProvider (.plain 8)).run (Setup.plain 8)
      [.request .origin, .request ⟨1, 0, 0⟩, .work]
    s.provider.state.preparing = [⟨1, 0, 0⟩]
      ∧ s.provider.state.isResident .origin = true
      ∧ s.provider.requestChunk (Setup.plain 8) .origin = s.provider
      ∧ s.provider.requestChunk (Setup.plain 8) ⟨1, 0, 0⟩ = s.provider := by
  intro s
  have hrequest := (single_producer (s := s) (start_plain 8)
    (Session.reaches_run (Setup.plain 8) _ _)).2.2.2.2.2
  exact ⟨by decide +kernel, by decide +kernel,
    (hrequest .origin (.inl (by decide +kernel))).2,
    (hrequest ⟨1, 0, 0⟩ (.inr (by decide +kernel))).2⟩

end ChunkStream
