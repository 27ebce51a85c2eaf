import ChunkStream.Proofs.Work.Nearest

/-!
# The accounts of a pipeline

What a pipeline does with its tasks is told by the calls it makes on its
handler.  Every task that was queued waits, or has been run once, or has been
discarded once, and a task that comes after the shutdown is discarded on
arrival.  The handler may do with a task what it likes: the accounts are kept
by the pipeline, and by each of its acts alone.

Calls from outside feed the queue and discard, and never run anything.  So one
relation describes them all, and only a step of the worker and the shutdown
move tasks from one side of the account to another.
-/

namespace ChunkStream

/-! ## Arrivals -/

namespace TaskQueue

variable {q q' q'' : TaskQueue} {p : Priority} {t : Task}

/-- The second queue is the first one with tasks added, which took the next
places in the order of arrival. -/
structure Extended (q q' : TaskQueue) : Prop where
  closed : q'.closed = q.closed
  ticketed : q.Ticketed → q'.Ticketed
  marked : q.Marked → q'.Marked
  places : ∃ new, q'.places = new ++ q.places
    ∧ (∀ a ∈ new, q.nextTicket ≤ a.1)
    ∧ q'.nextTicket = q.nextTicket + new.length

namespace Extended

theorem refl (q : TaskQueue) : Extended q q :=
  ⟨rfl, id, id, [], rfl, fun _ h => absurd h List.not_mem_nil, rfl⟩

theorem trans (h : Extended q q') (h' : Extended q' q'') : Extended q q'' := by
  obtain ⟨new, hplaces, habove, hnext⟩ := h.places
  obtain ⟨new', hplaces', habove', hnext'⟩ := h'.places
  refine ⟨h'.closed.trans h.closed, h'.ticketed ∘ h.ticketed,
    h'.marked ∘ h.marked, new' ++ new, ?_, ?_, ?_⟩
  · rw [hplaces', hplaces, List.append_assoc]
  · intro a ha
    rcases List.mem_append.1 ha with ha | ha
    · have hle := habove' a ha
      omega
    · exact habove a ha
  · rw [hnext', hnext, List.length_append]
    omega

theorem push : Extended q (q.push p t).1 := by
  refine ⟨closed_push, Ticketed.push, Marked.push, ?_⟩
  rcases places_push_cases p t q with ⟨hplaces, hnext⟩ | ⟨hplaces, hnext⟩
  · exact ⟨[], hplaces, fun _ h => absurd h List.not_mem_nil, hnext⟩
  · exact ⟨[(q.nextTicket, t)], hplaces, by simp, hnext⟩

theorem followUp (bs : List Box) : Extended q (Pipeline.followUp p bs q) :=
  Pipeline.followUp_preserve (P := Extended q) (fun _ _ h => h.trans push)
    (refl q) bs

/-- The new places are those whose tasks have arrived. -/
theorem tasks_eq (h : Extended q q') (hq : q.Ticketed) :
    q'.tasks = (q.arrived q').reverse ++ q.tasks
      ∧ q'.nextTicket = q.nextTicket + (q.arrived q').length := by
  obtain ⟨new, hplaces, habove, hnext⟩ := h.places
  have harrived : q.arrived q' = (new.map Prod.snd).reverse := by
    have hfilter : q.arrived q' = ((q'.places.filter fun a =>
        q.nextTicket ≤ a.1).map Prod.snd).reverse := by
      simp [arrived, TaskQueue.places, List.filter_map, Function.comp_def]
    have hnew : new.filter (fun a => q.nextTicket ≤ a.1) = new :=
      List.filter_eq_self.2 fun a ha => by simpa using habove a ha
    have hold : q.places.filter (fun a => q.nextTicket ≤ a.1) = [] :=
      List.filter_eq_nil_iff.2 fun a ha => by
        simpa using hq.lt_of_mem_places ha
    rw [hfilter, hplaces, List.filter_append, hnew, hold, List.append_nil]
  constructor
  · rw [harrived, List.reverse_reverse, ← map_snd_places, hplaces,
      List.map_append, map_snd_places]
  · rw [harrived, hnext, List.length_reverse, List.length_map]

end Extended

/-- Nothing arrives where all places are old. -/
theorem arrived_eq_nil (hq : q.Ticketed) (h : q'.places ⊆ q.places) :
    q.arrived q' = [] := by
  unfold arrived
  rw [List.reverse_eq_nil_iff, List.map_eq_nil_iff, List.filter_eq_nil_iff]
  intro e he
  have hold := hq.lt_of_mem_places (h (List.mem_map_of_mem he))
  simpa using hold

end TaskQueue

namespace HandlerCall

theorem discards_discarded (ts : List Task) :
    (ts.map discarded).filterMap discarded? = ts := by
  induction ts with
  | nil => rfl
  | cons t ts ih => simp [discarded?, ih]

theorem runs_discarded (ts : List Task) :
    (ts.map discarded).filterMap ran? = [] := by
  induction ts with
  | nil => rfl
  | cons t ts ih => simp [ran?]

theorem cancellations_discarded (ts : List Task) :
    (ts.map discarded).countP isCancelled = 0 := by
  induction ts with
  | nil => rfl
  | cons t ts ih => simp [isCancelled]

end HandlerCall

namespace Pipeline

variable {σ : Type} {h : Handler σ}

variable {p p' p'' : Pipeline (σ × List HandlerCall)} {t : Task}

/-! ## The record changes nothing -/

theorem forget_submit (t : Task) (p : Pipeline (σ × List HandlerCall)) :
    (p.submit h.recorded t).forget = p.forget.submit h t := by
  cases hpush : p.queue.push (h.priority p.state.1) t with
  | mk queue outcome =>
    cases outcome <;> simp [submit, forget, Handler.recorded, hpush]

theorem forget_request (c : Coord) (p : Pipeline (σ × List HandlerCall)) :
    Prod.map id forget (p.request h.recorded c) = p.forget.request h c := by
  cases hstopped : p.stopped with
  | true => simp [request, forget, hstopped]
  | false =>
    cases hprepare : h.prepare c p.state.1 with
    | mk claim state =>
      cases claim with
      | none => simp [request, forget, hstopped, Handler.recorded, hprepare]
      | some t =>
        simp only [request, hstopped, Handler.recorded, hprepare, forget,
          Bool.false_eq_true, if_false, Prod.map_apply, id]
        exact congrArg (Prod.mk true) (forget_submit t _)

theorem forget_requestEach (cs : List Coord)
    (p : Pipeline (σ × List HandlerCall)) :
    Prod.map id forget (p.requestEach h.recorded cs)
      = p.forget.requestEach h cs := by
  unfold requestEach
  generalize 0 = n
  induction cs generalizing n p with
  | nil => rfl
  | cons c cs ih =>
    have hrequest := forget_request (h := h) c p
    rw [List.foldl_cons, List.foldl_cons, ih, ← hrequest]
    rfl

theorem forget_requestReview (b : Box) (p : Pipeline (σ × List HandlerCall)) :
    (p.requestReview h.recorded b).forget = p.forget.requestReview h b := by
  unfold requestReview
  induction b.toList generalizing p with
  | nil => rfl
  | cons c cs ih => rw [List.foldl_cons, List.foldl_cons, ih, forget_submit]

/-- Discarded tasks go to the end of the record. -/
theorem discards_recorded (ts : List Task) (s : σ × List HandlerCall) :
    ts.foldl (fun s t => h.recorded.discard t s) s
      = (ts.foldl (fun s t => h.discard t s) s.1,
        s.2 ++ ts.map .discarded) := by
  induction ts generalizing s with
  | nil => simp
  | cons t ts ih =>
    rw [List.foldl_cons, ih]
    simp [Handler.recorded]

theorem forget_conclude (outcome : Except (Failure TaskError) Unit)
    (t : Task) (p : Pipeline (σ × List HandlerCall)) :
    (p.conclude h.recorded t outcome).forget = p.forget.conclude h t outcome := by
  rcases outcome with (_ | _ | _ | _ | _) | _ <;> rfl

theorem forget_work? (p : Pipeline (σ × List HandlerCall)) :
    (p.work? h.recorded).map forget = p.forget.work? h := by
  unfold work?
  have hpriority : p.forget.queue.pop? (h.priority p.forget.state)
      = p.queue.pop? (h.recorded.priority p.state) := rfl
  rw [hpriority]
  cases p.queue.pop? (h.recorded.priority p.state) with
  | none => rfl
  | some served =>
    exact congrArg some (forget_conclude _ _ _)

theorem forget_shutdown (p : Pipeline (σ × List HandlerCall)) :
    (p.shutdown h.recorded).forget = p.forget.shutdown h := by
  unfold shutdown
  cases hstopped : p.stopped with
  | true => simp [forget, hstopped]
  | false =>
    simp only [forget, hstopped, discards_recorded]
    cases p.queue.close.1.isEmpty <;> simp [Handler.recorded]

theorem forget_act (a : PipelineAct) (p : Pipeline (σ × List HandlerCall)) :
    (p.act h.recorded a).forget = p.forget.act h a := by
  cases a with
  | submit t => exact forget_submit t p
  | request c => exact congrArg Prod.snd (forget_request c p)
  | requestBox b => exact congrArg Prod.snd (forget_requestEach b.toList p)
  | requestReview b => exact forget_requestReview b p
  | cancel => rfl
  | work =>
    simp only [act, ← forget_work?]
    cases p.work? h.recorded <;> rfl
  | shutdown => exact forget_shutdown p

theorem forget_run (acts : List PipelineAct)
    (p : Pipeline (σ × List HandlerCall)) :
    (p.run h.recorded acts).forget = p.forget.run h acts := by
  unfold run
  induction acts generalizing p with
  | nil => rfl
  | cons a acts ih => rw [List.foldl_cons, List.foldl_cons, ih, forget_act]

/-! ## Calls from outside -/

/-- Calls from outside lead from the first pipeline to the second one.  They add
tasks to the queue, or hand the given tasks to the handler's discard, and run
nothing. -/
structure Fed (late : List Task) (p p' : Pipeline (σ × List HandlerCall)) :
    Prop where
  stopped : p'.stopped = p.stopped
  inflight : p'.inflight = p.inflight
  completed : p'.completed = p.completed
  failed : p'.failed = p.failed
  extended : p.queue.Extended p'.queue
  halted : p.stopped = true → p'.queue = p.queue
  ran : p'.state.2.filterMap HandlerCall.ran?
    = p.state.2.filterMap HandlerCall.ran?
  cancellations : p'.state.2.countP HandlerCall.isCancelled
    = p.state.2.countP HandlerCall.isCancelled
  discarded : p'.state.2.filterMap HandlerCall.discarded?
    = p.state.2.filterMap HandlerCall.discarded? ++ late

namespace Fed

variable {late late' : List Task}

theorem refl (p : Pipeline (σ × List HandlerCall)) : Fed [] p p :=
  ⟨rfl, rfl, rfl, rfl, .refl _, fun _ => rfl, rfl, rfl,
    (List.append_nil _).symm⟩

theorem trans (h : Fed late p p') (h' : Fed late' p' p'') :
    Fed (late ++ late') p p'' where
  stopped := h'.stopped.trans h.stopped
  inflight := h'.inflight.trans h.inflight
  completed := h'.completed.trans h.completed
  failed := h'.failed.trans h.failed
  extended := h.extended.trans h'.extended
  halted hs := (h'.halted (h.stopped.trans hs)).trans (h.halted hs)
  ran := h'.ran.trans h.ran
  cancellations := h'.cancellations.trans h.cancellations
  discarded := by rw [h'.discarded, h.discarded, List.append_assoc]

/-- The queue is closed exactly when the pipeline has stopped, if it was so. -/
theorem closed (h : Fed late p p') (hp : p.queue.closed = p.stopped) :
    p'.queue.closed = p'.stopped := by
  rw [h.extended.closed, h.stopped, hp]

end Fed

/-- A call on the handler that is not a run. -/
theorem fed_call (s : σ) (call : HandlerCall) (hran : call.ran? = none)
    (hcancelled : call.isCancelled = false) :
    Fed call.discarded?.toList p
      { p with state := (s, p.state.2 ++ [call]) } := by
  refine ⟨rfl, rfl, rfl, rfl, .refl _, fun _ => rfl, ?_, ?_, ?_⟩
  · simp [hran]
  · simp [hcancelled]
  · cases hdiscarded : call.discarded? <;> simp [hdiscarded]

/-- Before the shutdown a task goes to the queue and nowhere else. -/
theorem submit_of_open (hopen : p.queue.closed = false) (t : Task) :
    p.submit h.recorded t = { p with
      queue := (p.queue.push (h.recorded.priority p.state) t).1 } := by
  unfold submit
  rcases TaskQueue.push_cases (h.recorded.priority p.state) t p.queue with
    ⟨hclosed, -⟩ | ⟨-, -, -, hpush⟩ | ⟨-, -, hpush⟩
  · rw [hopen] at hclosed
    cases hclosed
  · rw [hpush]
  · rw [hpush]

theorem fed_submit_of_open (hp : p.queue.closed = p.stopped)
    (hopen : p.stopped = false) (t : Task) :
    Fed [] p (p.submit h.recorded t) := by
  rw [submit_of_open (hp.trans hopen)]
  refine ⟨rfl, rfl, rfl, rfl, .push, ?_, rfl, rfl, (List.append_nil _).symm⟩
  exact fun hs => absurd (hs.symm.trans hopen) (by decide)

theorem fed_submit (hp : p.queue.closed = p.stopped) (t : Task) :
    Fed (if p.stopped then [t] else []) p (p.submit h.recorded t) := by
  split
  · next hstopped =>
    simp only [submit, TaskQueue.push_of_closed (hp.trans hstopped)]
    exact fed_call _ (.discarded t) rfl rfl
  · next hopen => exact fed_submit_of_open hp (Bool.eq_false_iff.2 hopen) t

theorem request_of_stopped (hstopped : p.stopped = true) (c : Coord) :
    p.request h.recorded c = (false, p) := by
  simp [request, hstopped]

theorem requestEach_of_stopped (hstopped : p.stopped = true) (cs : List Coord) :
    p.requestEach h.recorded cs = (0, p) := by
  unfold requestEach
  induction cs with
  | nil => rfl
  | cons c cs ih =>
    rw [List.foldl_cons, request_of_stopped hstopped]
    exact ih

theorem fed_request (hp : p.queue.closed = p.stopped) (c : Coord) :
    Fed [] p (p.request h.recorded c).2 := by
  cases hstopped : p.stopped with
  | true =>
    rw [request_of_stopped hstopped]
    exact .refl p
  | false =>
    have hprepared (s : σ) : Fed [] p { p with
        state := (s, p.state.2 ++ [.prepared c]) } :=
      fed_call s (.prepared c) rfl rfl
    cases hprepare : h.prepare c p.state.1 with
    | mk claim state =>
      cases claim with
      | none =>
        have hrequest : (p.request h.recorded c).2
            = { p with state := (state, p.state.2 ++ [.prepared c]) } := by
          simp [request, hstopped, Handler.recorded, hprepare]
        rw [hrequest]
        exact hprepared state
      | some t =>
        have hrequest : (p.request h.recorded c).2 = submit h.recorded t
            { p with state := (state, p.state.2 ++ [.prepared c]) } := by
          simp [request, hstopped, Handler.recorded, hprepare]
        rw [hrequest]
        exact (hprepared state).trans
          (fed_submit_of_open ((hprepared state).closed hp) hstopped t)

theorem fed_requestEach (hp : p.queue.closed = p.stopped) (cs : List Coord) :
    Fed [] p (p.requestEach h.recorded cs).2 := by
  unfold requestEach
  generalize 0 = n
  induction cs generalizing n p with
  | nil => exact .refl p
  | cons c cs ih =>
    have hrequest := fed_request (h := h) hp c
    rw [List.foldl_cons]
    exact hrequest.trans (ih (hrequest.closed hp) _)

theorem fed_requestReview (hp : p.queue.closed = p.stopped) (b : Box) :
    Fed (if p.stopped then b.toList.map .review else []) p
      (p.requestReview h.recorded b) := by
  unfold requestReview
  induction b.toList generalizing p with
  | nil =>
    rw [List.map_nil, ite_self]
    exact .refl p
  | cons c cs ih =>
    have hsubmit := fed_submit (h := h) hp (.review c)
    have hrest := hsubmit.trans (ih (hsubmit.closed hp))
    rw [hsubmit.stopped] at hrest
    rw [List.foldl_cons]
    cases hstopped : p.stopped <;> simpa [hstopped] using hrest

/-- All acts feed the pipeline, but for those that move its tasks. -/
theorem fed_act (hp : p.queue.closed = p.stopped) {a : PipelineAct}
    (hwork : a ≠ .work) (hshutdown : a ≠ .shutdown) :
    Fed (if p.stopped then a.handed else []) p (p.act h.recorded a) := by
  cases a with
  | submit t => exact fed_submit hp t
  | request c =>
    simpa [PipelineAct.handed, act] using fed_request hp c
  | requestBox b =>
    simpa [PipelineAct.handed, act, requestBox]
      using fed_requestEach hp b.toList
  | requestReview b => exact fed_requestReview hp b
  | cancel =>
    have hcancel : Fed [] p p.cancel :=
      ⟨rfl, rfl, rfl, rfl, .refl _, fun _ => rfl, rfl, rfl,
        (List.append_nil _).symm⟩
    simpa [PipelineAct.handed, act] using hcancel
  | work => exact absurd rfl hwork
  | shutdown => exact absurd rfl hshutdown

/-! ## Runs and the shutdown -/

/-- A run is recorded, and it is counted as a success or a failure unless it
ended in cancellation. -/
theorem runTask_spec (t : Task) (p : Pipeline (σ × List HandlerCall)) :
    let ran := h.run p.cancelled t p.state.1
    let q := p.runTask h.recorded t
    q.queue = followUp (h.priority ran.state) ran.reviews p.queue
      ∧ q.stopped = p.stopped ∧ q.inflight = p.inflight
      ∧ q.state.2 = p.state.2 ++ [.ran t ran.outcome]
      ∧ q.completed + q.failed
          + (if (HandlerCall.ran t ran.outcome).isCancelled then 1 else 0)
        = p.completed + p.failed + 1 := by
  intro ran q
  have hq : q = conclude h.recorded t ran.outcome
      { p with
        state := (ran.state, p.state.2 ++ [.ran t ran.outcome])
        queue := followUp (h.priority ran.state) ran.reviews p.queue
        cancelled := p.cancelled || ran.cancels
        inflight := p.inflight + 1 - 1 } := rfl
  rw [hq]
  rcases ran.outcome with (_ | _ | _ | _ | _) | _ <;>
    simp +arith [conclude, Handler.recorded, HandlerCall.isCancelled]

/-- The first shutdown discards what waits. -/
theorem shutdown_of_open (hopen : p.stopped = false) :
    ∃ state, p.shutdown h.recorded = { p with
      state := (state, p.state.2 ++ p.queue.close.1.map .discarded)
      queue := p.queue.close.2
      cancelled := true
      stopped := true } := by
  unfold shutdown
  simp only [hopen, Bool.false_eq_true, if_false, discards_recorded]
  cases p.queue.close.1.isEmpty <;> exact ⟨_, rfl⟩

end Pipeline

namespace PipelineHistory

open Pipeline

variable {σ : Type} {h : Handler σ} {x : PipelineHistory (σ × List HandlerCall)}

/-- The accounts are right. -/
structure Accounted (x : PipelineHistory (σ × List HandlerCall)) : Prop where
  ticketed : x.pipeline.queue.Ticketed
  marked : x.pipeline.queue.Marked
  closed : x.pipeline.queue.closed = x.pipeline.stopped
  halted : x.pipeline.stopped = true → x.pipeline.queue.tasks = []
  early : x.pipeline.stopped = false →
    x.pipeline.state.2.filterMap HandlerCall.discarded? = []
  numbered : x.entered.length = x.pipeline.queue.nextTicket
  balance : ∃ dropped,
    x.pipeline.state.2.filterMap HandlerCall.discarded? = dropped ++ x.late
      ∧ x.entered.Perm (x.pipeline.queue.tasks
        ++ x.pipeline.state.2.filterMap HandlerCall.ran? ++ dropped)
  idle : x.pipeline.inflight = 0
  tally : x.pipeline.completed + x.pipeline.failed
      + x.pipeline.state.2.countP HandlerCall.isCancelled
    = (x.pipeline.state.2.filterMap HandlerCall.ran?).length

namespace Accounted

theorem start {workers : Nat} {s : σ} {p : Pipeline σ}
    (hstart : Pipeline.start h workers s = .ok p) :
    Accounted ⟨p.recording, [], []⟩ := by
  unfold Pipeline.start at hstart
  split at hstart
  · cases hstart
  · cases hstart
    exact ⟨TaskQueue.ticketed_empty, TaskQueue.marked_empty, rfl,
      fun _ => rfl, fun _ => rfl, rfl, ⟨[], rfl, .refl []⟩, rfl, rfl⟩

theorem fed (hx : Accounted x) {late : List Task}
    {p : Pipeline (σ × List HandlerCall)} (hp : Fed late x.pipeline p)
    (hlate : x.pipeline.stopped = false → late = []) :
    Accounted ⟨p, x.entered ++ x.pipeline.queue.arrived p.queue,
      x.late ++ late⟩ := by
  obtain ⟨htasks, hnext⟩ := hp.extended.tasks_eq hx.ticketed
  obtain ⟨dropped, hdiscarded, hperm⟩ := hx.balance
  refine ⟨hp.extended.ticketed hx.ticketed, hp.extended.marked hx.marked,
    hp.closed hx.closed, ?_, ?_, ?_, ⟨dropped, ?_, ?_⟩,
    hp.inflight.trans hx.idle, ?_⟩
  · intro hstopped
    have hbefore := hp.stopped.symm.trans hstopped
    rw [hp.halted hbefore]
    exact hx.halted hbefore
  · intro hopen
    have hbefore := hp.stopped.symm.trans hopen
    rw [hp.discarded, hx.early hbefore, hlate hbefore, List.append_nil]
  · rw [List.length_append, hx.numbered, hnext]
  · rw [hp.discarded, hdiscarded, List.append_assoc]
  · rw [List.perm_iff_count] at hperm ⊢
    intro t
    have hcount := hperm t
    simp only [hp.ran, htasks, List.count_append, List.count_reverse]
      at hcount ⊢
    omega
  · rw [hp.completed, hp.failed, hp.cancellations, hp.ran]
    exact hx.tally

/-- A pipeline that finds a task goes on. -/
theorem opened_of_pop? (hx : Accounted x) {t : Task} {queue : TaskQueue}
    {p : Priority} (hpop : x.pipeline.queue.pop? p = some (t, queue)) :
    x.pipeline.stopped = false := by
  rw [← hx.closed, ← Bool.not_eq_true]
  intro hclosed
  rw [TaskQueue.pop?_eq_none_iff.2 (.inl hclosed)] at hpop
  cases hpop

/-- Taking a task and running it moves the task from those that wait to those
that were run. -/
theorem served (hx : Accounted x) {t : Task} {queue : TaskQueue}
    (hpop : x.pipeline.queue.pop?
      (h.recorded.priority x.pipeline.state) = some (t, queue))
    {p : Pipeline (σ × List HandlerCall)}
    (hp : p = runTask h.recorded t { x.pipeline with queue := queue }) :
    Accounted ⟨p, x.entered ++ x.pipeline.queue.arrived p.queue, x.late⟩ := by
  have hopen := hx.opened_of_pop? hpop
  have hspec := runTask_spec (h := h) t { x.pipeline with queue := queue }
  rw [← hp] at hspec
  obtain ⟨hqueue, hstopped, hinflight, hcalls, htally⟩ := hspec
  dsimp only at hstopped hinflight hcalls htally
  have hextended : queue.Extended p.queue := hqueue ▸ .followUp _
  have hticketed := hx.ticketed.pop hpop
  have hperm := TaskQueue.perm_pop hx.ticketed hpop
  have hticket := TaskQueue.nextTicket_pop hpop
  have harrived : x.pipeline.queue.arrived p.queue = queue.arrived p.queue := by
    simp only [TaskQueue.arrived, hticket]
  obtain ⟨htasks, hnext⟩ := hextended.tasks_eq hticketed
  obtain ⟨dropped, hdiscarded, hbalance⟩ := hx.balance
  have hdiscards : p.state.2.filterMap HandlerCall.discarded?
      = x.pipeline.state.2.filterMap HandlerCall.discarded? := by
    simp [hcalls, HandlerCall.discarded?]
  have hran : p.state.2.filterMap HandlerCall.ran?
      = x.pipeline.state.2.filterMap HandlerCall.ran? ++ [t] := by
    simp [hcalls, HandlerCall.ran?]
  refine ⟨hextended.ticketed hticketed,
    hextended.marked (hx.marked.pop hx.ticketed hpop), ?_, ?_, ?_, ?_,
    ⟨dropped, ?_, ?_⟩, ?_, ?_⟩
  · rw [hextended.closed, TaskQueue.closed_pop hpop, hx.closed, hstopped]
  · intro hs
    rw [hstopped, hopen] at hs
    cases hs
  · intro _
    rw [hdiscards]
    exact hx.early hopen
  · rw [harrived, List.length_append, hx.numbered, hnext, hticket]
  · rw [hdiscards, hdiscarded]
  · rw [List.perm_iff_count] at hbalance ⊢
    intro u
    have hcount := hbalance u
    have hserved := hperm.count_eq u
    simp only [hran, harrived, htasks, List.count_append, List.count_cons,
      List.count_nil, List.count_reverse] at hcount hserved ⊢
    omega
  · exact hinflight.trans hx.idle
  · have hbefore := hx.tally
    dsimp only
    rw [hran, hcalls, List.countP_append, List.countP_singleton,
      List.length_append, List.length_singleton]
    omega

theorem work (hx : Accounted x) : Accounted (x.step h.recorded .work) := by
  cases hpop : x.pipeline.queue.pop?
      (h.recorded.priority x.pipeline.state) with
  | none =>
    have hsame := hx.fed (.refl x.pipeline) fun _ => rfl
    simpa [PipelineHistory.step, act, work?, hpop, PipelineAct.handed]
      using hsame
  | some served =>
    obtain ⟨t, queue⟩ := served
    simpa [PipelineHistory.step, act, work?, hpop, PipelineAct.handed]
      using hx.served hpop rfl

theorem shutdown (hx : Accounted x) :
    Accounted (x.step h.recorded .shutdown) := by
  cases hstopped : x.pipeline.stopped with
  | true =>
    have hsame := hx.fed (.refl x.pipeline) fun _ => rfl
    simpa [PipelineHistory.step, act, Pipeline.shutdown, hstopped,
      PipelineAct.handed] using hsame
  | false =>
    obtain ⟨state, hshutdown⟩ := shutdown_of_open (h := h) hstopped
    have hstep : x.step h.recorded .shutdown
        = ⟨x.pipeline.shutdown h.recorded, x.entered ++ [], x.late⟩ := by
      have harrived : x.pipeline.queue.arrived
          (x.pipeline.shutdown h.recorded).queue = [] := by
        rw [hshutdown]
        exact TaskQueue.arrived_eq_nil hx.ticketed (List.nil_subset _)
      simp only [PipelineHistory.step, act, harrived, hstopped]
      rfl
    have hearly := hx.early hstopped
    obtain ⟨dropped, hdiscarded, hbalance⟩ := hx.balance
    rw [hearly] at hdiscarded
    obtain ⟨rfl, hlate⟩ := List.nil_eq_append_iff.1 hdiscarded
    rw [hstep, hshutdown, hlate, List.append_nil]
    refine ⟨TaskQueue.ticketed_close, TaskQueue.marked_close, rfl,
      fun _ => rfl, ?_, hx.numbered, ⟨x.pipeline.queue.close.1, ?_, ?_⟩,
      hx.idle, ?_⟩
    · intro hs
      cases hs
    · rw [List.filterMap_append, hearly, HandlerCall.discards_discarded]
      simp
    · rw [List.perm_iff_count] at hbalance ⊢
      intro t
      have hcount := hbalance t
      have hclose := (TaskQueue.perm_close (q := x.pipeline.queue)).count_eq t
      simp only [List.filterMap_append, HandlerCall.runs_discarded,
        TaskQueue.tasks_close, List.count_append, List.count_nil]
        at hcount hclose ⊢
      omega
    · rw [List.filterMap_append, HandlerCall.runs_discarded, List.append_nil,
        List.countP_append, HandlerCall.cancellations_discarded]
      exact hx.tally

theorem step (hx : Accounted x) (a : PipelineAct) :
    Accounted (x.step h.recorded a) := by
  by_cases hwork : a = .work
  · exact hwork ▸ hx.work
  · by_cases hshutdown : a = .shutdown
    · exact hshutdown ▸ hx.shutdown
    · have hfed := hx.fed (fed_act (h := h) hx.closed hwork hshutdown)
        fun hopen => by simp [hopen]
      have hlate : (x.step h.recorded a).late = x.late
          ++ if x.pipeline.stopped then a.handed else [] := by
        unfold PipelineHistory.step
        split <;> simp
      rw [← hlate] at hfed
      exact hfed

end Accounted

/-- As long as a task waits, the worker runs one of those that wait. -/
theorem Accounted.exists_work (hx : Accounted x)
    (hwaits : x.pipeline.queue.tasks ≠ []) :
    ∃ t ∈ x.pipeline.queue.tasks, ∃ p,
      x.pipeline.work? h.recorded = some p
        ∧ p.state.2.filterMap HandlerCall.ran?
          = x.pipeline.state.2.filterMap HandlerCall.ran? ++ [t] := by
  cases hpop : x.pipeline.queue.pop?
      (h.recorded.priority x.pipeline.state) with
  | none =>
    rcases TaskQueue.pop?_eq_none_iff.1 hpop with hclosed | hempty
    · exact absurd (hx.halted (hx.closed.symm.trans hclosed)) hwaits
    · exact absurd hempty hwaits
  | some served =>
    obtain ⟨t, queue⟩ := served
    have hperm := TaskQueue.perm_pop hx.ticketed hpop
    have hspec := runTask_spec (h := h) t { x.pipeline with queue := queue }
    refine ⟨t, hperm.mem_iff.2 List.mem_cons_self, _, by rw [work?, hpop], ?_⟩
    simp [hspec.2.2.2.1, HandlerCall.ran?]

theorem run_concat (acts : List PipelineAct) (a : PipelineAct)
    (x : PipelineHistory (σ × List HandlerCall)) :
    x.run h.recorded (acts ++ [a]) = (x.run h.recorded acts).step h.recorded a :=
  List.foldl_concat _ _ _ _

theorem pipeline_run (acts : List PipelineAct)
    (x : PipelineHistory (σ × List HandlerCall)) :
    (x.run h.recorded acts).pipeline = x.pipeline.run h.recorded acts := by
  induction acts using List.reverseRecOn with
  | nil => rfl
  | append_singleton acts a ih =>
    have hconcat : x.pipeline.run h.recorded (acts ++ [a])
        = (x.pipeline.run h.recorded acts).act h.recorded a :=
      List.foldl_concat _ _ _ _
    rw [run_concat, hconcat, ← ih]
    rfl

theorem Accounted.run (hx : Accounted x) (acts : List PipelineAct) :
    Accounted (x.run h.recorded acts) := by
  induction acts using List.reverseRecOn with
  | nil => exact hx
  | append_singleton acts a ih =>
    rw [run_concat]
    exact ih.step a

/-! ## After the shutdown -/

/-- Only a shutdown stops a pipeline, and for good. -/
theorem stopped_step (hx : Accounted x) (a : PipelineAct) :
    (x.step h.recorded a).pipeline.stopped = true
      ↔ x.pipeline.stopped = true ∨ a = .shutdown := by
  by_cases hshutdown : a = .shutdown
  · subst hshutdown
    have hstop : (x.pipeline.shutdown h.recorded).stopped = true := by
      cases hstopped : x.pipeline.stopped with
      | true => simp [Pipeline.shutdown, hstopped]
      | false =>
        obtain ⟨state, hshutdown⟩ := shutdown_of_open (h := h) hstopped
        rw [hshutdown]
    exact ⟨fun _ => .inr rfl, fun _ => hstop⟩
  · have hsame : (x.pipeline.act h.recorded a).stopped = x.pipeline.stopped := by
      by_cases hwork : a = .work
      · subst hwork
        cases hpop : x.pipeline.queue.pop?
            (h.recorded.priority x.pipeline.state) with
        | none => simp [act, work?, hpop]
        | some served =>
          simp only [act, work?, hpop, Option.getD_some]
          exact (runTask_spec served.1 _).2.1
      · exact (fed_act hx.closed hwork hshutdown).stopped
    simp only [PipelineHistory.step, hsame, hshutdown, or_false]

/-- A stopped pipeline runs nothing. -/
theorem ran_step_of_stopped (hx : Accounted x)
    (hstopped : x.pipeline.stopped = true) (a : PipelineAct) :
    (x.step h.recorded a).pipeline.state.2.filterMap HandlerCall.ran?
      = x.pipeline.state.2.filterMap HandlerCall.ran? := by
  have hpop : x.pipeline.queue.pop?
      (h.recorded.priority x.pipeline.state) = none :=
    TaskQueue.pop?_eq_none_iff.2 (.inl (hx.closed.trans hstopped))
  by_cases hwork : a = .work
  · simp [PipelineHistory.step, hwork, act, work?, hpop]
  · by_cases hshutdown : a = .shutdown
    · simp [PipelineHistory.step, hshutdown, act, Pipeline.shutdown, hstopped]
    · exact (fed_act hx.closed hwork hshutdown).ran

theorem ran_run_of_stopped (hx : Accounted x)
    (hstopped : x.pipeline.stopped = true) (acts : List PipelineAct) :
    (x.run h.recorded acts).pipeline.state.2.filterMap HandlerCall.ran?
      = x.pipeline.state.2.filterMap HandlerCall.ran? := by
  induction acts generalizing x with
  | nil => rfl
  | cons a acts ih =>
    have hrest := ih (hx.step (h := h) a)
      ((stopped_step hx a).2 (.inl hstopped))
    exact hrest.trans (ran_step_of_stopped hx hstopped a)

theorem stopped_run (hx : Accounted x) (acts : List PipelineAct) :
    (x.run h.recorded acts).pipeline.stopped = true
      ↔ x.pipeline.stopped = true ∨ .shutdown ∈ acts := by
  induction acts using List.reverseRecOn with
  | nil => simp [PipelineHistory.run]
  | append_singleton acts a ih =>
    rw [run_concat, stopped_step (hx.run acts), ih, List.mem_append,
      List.mem_singleton, or_assoc, eq_comm (a := a)]

end PipelineHistory

/-- Along every history of a pipeline, whatever its handler does: the tasks that
were queued are those that wait, those that were run and those that were
discarded at the shutdown, each as often, and besides these exactly the tasks
that were handed over after the shutdown were discarded.  The runs are counted
as completed, failed or cancelled, and none is under way between steps.  A step
of the worker runs one of the tasks that wait, and a task that is handed over
before the shutdown waits.  The shutdown is final: nothing is run after it, a
second one changes nothing, and a request claims nothing.  The record that tells
all this leaves the pipeline as it is. -/
theorem Pipeline.tasks_accounted_for {σ : Type} (h : Handler σ) {workers : Nat}
    {s : σ} {p : Pipeline σ} (hstart : Pipeline.start h workers s = .ok p)
    (acts : List PipelineAct) :
    let x := PipelineHistory.run h.recorded acts ⟨p.recording, [], []⟩
    let q := x.pipeline
    let calls := q.state.2
    q.forget = p.run h acts
      ∧ x.entered.length = q.queue.nextTicket
      ∧ (∃ dropped,
        x.entered.Perm
          (q.queue.tasks ++ calls.filterMap HandlerCall.ran? ++ dropped)
        ∧ calls.filterMap HandlerCall.discarded? = dropped ++ x.late
        ∧ (.shutdown ∉ acts → dropped = [] ∧ x.late = []))
      ∧ q.completed + q.failed + calls.countP HandlerCall.isCancelled
        = (calls.filterMap HandlerCall.ran?).length
      ∧ q.stats.inflight = 0
      ∧ (q.queue.tasks ≠ [] → ∃ t ∈ q.queue.tasks, ∃ q',
        q.work? h.recorded = some q'
          ∧ q'.state.2.filterMap HandlerCall.ran?
            = calls.filterMap HandlerCall.ran? ++ [t])
      ∧ (.shutdown ∉ acts →
        ∀ t, t ∈ (q.submit h.recorded t).queue.tasks)
      ∧ (.shutdown ∈ acts → q.queue.tasks = []
        ∧ q.shutdown h.recorded = q
        ∧ (∀ c, q.request h.recorded c = (false, q))
        ∧ (∀ b, q.requestBox h.recorded b = (0, q))
        ∧ ∀ more,
          (PipelineHistory.run h.recorded more x).pipeline.state.2.filterMap
            HandlerCall.ran? = calls.filterMap HandlerCall.ran?) := by
  intro x q calls
  have hstarted := PipelineHistory.Accounted.start hstart
  have hx : x.Accounted := hstarted.run acts
  have hopen : p.stopped = false := by
    unfold Pipeline.start at hstart
    split at hstart
    · cases hstart
    · cases hstart
      rfl
  have hstopped : q.stopped = true ↔ .shutdown ∈ acts := by
    rw [PipelineHistory.stopped_run hstarted]
    simp [recording, hopen]
  refine ⟨?_, hx.numbered, ?_, hx.tally, hx.idle, hx.exists_work, ?_, ?_⟩
  · have hpipeline : q = p.recording.run h.recorded acts :=
      PipelineHistory.pipeline_run _ _
    rw [hpipeline, forget_run]
    rfl
  · obtain ⟨dropped, hdiscarded, hbalance⟩ := hx.balance
    refine ⟨dropped, hbalance, hdiscarded, ?_⟩
    intro hnone
    have hearly := hx.early (Bool.eq_false_iff.2 (hstopped.not.2 hnone))
    rw [hdiscarded] at hearly
    exact List.append_eq_nil_iff.1 hearly
  · intro hnone t
    have hgoing := Bool.eq_false_iff.2 (hstopped.not.2 hnone)
    have hqueueOpen := hx.closed.trans hgoing
    rw [Pipeline.submit_of_open hqueueOpen]
    exact hx.marked.mem_tasks_push hqueueOpen
  · intro hshutdown
    have hq : q.stopped = true := hstopped.2 hshutdown
    refine ⟨hx.halted hq, ?_, request_of_stopped hq,
      fun b => requestEach_of_stopped hq _,
      PipelineHistory.ran_run_of_stopped hx hq⟩
    simp [Pipeline.shutdown, hq]

/-- A handler that generates what it is asked for and has it reviewed, and gives
up every review. -/
def Handler.fickle : Handler Unit where
  priority _ := ⟨0, []⟩
  prepare c s := (some (.generate c), s)
  run _ t s :=
    if t.isReview then { state := s, outcome := .error (.error .cancelled) }
    else { state := s, reviews := [Box.neighborhood t.coord] }
  discard _ s := s
  notify _ s := s

/-- A production is run and one of its nine reviews is given up, the shutdown
discards the other eight, and one more that comes too late is discarded on
arrival. -/
theorem Pipeline.tasks_accounted_for_of_fickle :
    let acts : List PipelineAct :=
      [.request .origin, .work, .work, .shutdown, .submit (.review .origin)]
    ∃ p, Pipeline.start Handler.fickle 1 () = .ok p
      ∧ let x := PipelineHistory.run Handler.fickle.recorded acts
          ⟨p.recording, [], []⟩
        let q := x.pipeline
        x.entered.length = 10 ∧ x.late = [.review .origin]
          ∧ q.completed = 1 ∧ q.failed = 0 ∧ q.queue.tasks = []
          ∧ (∃ dropped,
            x.entered.Perm
              (q.state.2.filterMap HandlerCall.ran? ++ dropped)
            ∧ q.state.2.filterMap HandlerCall.discarded?
              = dropped ++ [.review .origin])
          ∧ q.shutdown Handler.fickle.recorded = q := by
  intro acts
  refine ⟨_, rfl, ?_⟩
  intro x q
  obtain ⟨-, -, ⟨dropped, hbalance, hdiscarded, -⟩, -, -, -, -, hafter⟩ :=
    tasks_accounted_for Handler.fickle
      (rfl : Pipeline.start Handler.fickle 1 () = .ok _) acts
  obtain ⟨htasks, hagain, -⟩ := hafter (by decide)
  have hentered : x.entered.length = 10 := by decide +kernel
  have hlate : x.late = [.review .origin] := by decide +kernel
  have hcompleted : q.completed = 1 := by decide +kernel
  have hfailed : q.failed = 0 := by decide +kernel
  rw [htasks, List.nil_append] at hbalance
  exact ⟨hentered, hlate, hcompleted, hfailed, htasks,
    ⟨dropped, hbalance, hlate ▸ hdiscarded⟩, hagain⟩

end ChunkStream
