import ChunkStream.Work.Pipeline
import ChunkStream.Work.Ranked

/-!
# Histories of queues and pipelines

What can happen to a queue together with its source of centers, and what can
happen to a pipeline with its one worker, act by act.  A history of a queue is
told by its answers.  A history of a pipeline is told by the calls it makes on
its handler: `Handler.recorded` is a handler that writes them down and does
nothing else of its own.
-/

namespace ChunkStream

/-! ## Queues -/

/-- What can happen to a queue. -/
inductive QueueAct
  | push (t : Task)
  | pop
  | recenter (p : Priority)
  | close
deriving DecidableEq, Repr

/-- The priority that the source takes on. -/
def QueueAct.priority? : QueueAct → Option Priority
  | recenter p => some p
  | _ => none

/-- What a queue answers. -/
inductive QueueReply
  | pushed (t : Task) (outcome : Pushed)
  | popped (t : Option Task)
  | recentered
  | closed (pending : List Task)
deriving DecidableEq, Repr

namespace QueueReply

/-- The task that was added to the queue. -/
def entered? : QueueReply → Option Task
  | pushed t .queued => some t
  | _ => none

/-- The task that was served. -/
def served? : QueueReply → Option Task
  | popped t => t
  | _ => none

/-- The tasks that closing gave back. -/
def returned : QueueReply → List Task
  | closed pending => pending
  | _ => []

end QueueReply

namespace RankedQueue

/-- An empty queue before a source that stands at some priority. -/
def fresh (p : Priority) : RankedQueue := ⟨.empty, p, 0⟩

def act (r : RankedQueue) : QueueAct → QueueReply × RankedQueue
  | .push t => (.pushed t (r.push t).1, (r.push t).2)
  | .pop => (.popped r.pop.1, r.pop.2)
  | .recenter p => (.recentered, r.recenter p)
  | .close => (.closed r.close.1, r.close.2)

/-- The answers to some acts, in order, and the queue after them. -/
def run (acts : List QueueAct) (r : RankedQueue) : List QueueReply × RankedQueue :=
  acts.foldl (fun (replies, r) a => (replies ++ [(r.act a).1], (r.act a).2)) ([], r)

end RankedQueue

/-- The tasks that are in the second queue and were not given a place in the
first one, in order of arrival. -/
def TaskQueue.arrived (q next : TaskQueue) : List Task :=
  ((next.entries.filter fun e => q.nextTicket ≤ e.ticket).map (·.task)).reverse

/-! ## Pipelines -/

variable {σ : Type}

/-- What can happen to a pipeline. -/
inductive PipelineAct
  | submit (t : Task)
  | request (c : Coord)
  | requestBox (b : Box)
  | requestReview (b : Box)
  | cancel
  | work
  | shutdown
deriving DecidableEq, Repr

/-- The tasks that an act hands to the pipeline as they are. -/
def PipelineAct.handed : PipelineAct → List Task
  | submit t => [t]
  | requestReview b => b.toList.map .review
  | _ => []

def Pipeline.act (h : Handler σ) (p : Pipeline σ) : PipelineAct → Pipeline σ
  | .submit t => p.submit h t
  | .request c => (p.request h c).2
  | .requestBox b => (p.requestBox h b).2
  | .requestReview b => p.requestReview h b
  | .cancel => p.cancel
  | .work => (p.work? h).getD p
  | .shutdown => p.shutdown h

def Pipeline.run (h : Handler σ) (acts : List PipelineAct) (p : Pipeline σ) : Pipeline σ :=
  acts.foldl (act h) p

/-- A call on a handler that matters to a task. -/
inductive HandlerCall
  | prepared (c : Coord)
  | ran (t : Task) (outcome : Except (Failure TaskError) Unit)
  | discarded (t : Task)

namespace HandlerCall

def ran? : HandlerCall → Option Task
  | ran t _ => some t
  | _ => none

def discarded? : HandlerCall → Option Task
  | discarded t => some t
  | _ => none

/-- The call ran a task, and that ended in cancellation. -/
def isCancelled : HandlerCall → Bool
  | ran _ (.error (.error .cancelled)) => true
  | _ => false

end HandlerCall

/-- The handler with a record of its calls, in order. -/
def Handler.recorded (h : Handler σ) : Handler (σ × List HandlerCall) where
  priority s := h.priority s.1
  prepare c s := ((h.prepare c s.1).1, (h.prepare c s.1).2, s.2 ++ [.prepared c])
  run cancelled t s :=
    let ran := h.run cancelled t s.1
    { state := (ran.state, s.2 ++ [.ran t ran.outcome])
      reviews := ran.reviews
      cancels := ran.cancels
      outcome := ran.outcome }
  discard t s := (h.discard t s.1, s.2 ++ [.discarded t])
  notify n s := (h.notify n s.1, s.2)

namespace Pipeline

/-- The pipeline with an empty record. -/
def recording (p : Pipeline σ) : Pipeline (σ × List HandlerCall) :=
  { p with state := (p.state, []) }

/-- The pipeline without the record. -/
def forget (p : Pipeline (σ × List HandlerCall)) : Pipeline σ := { p with state := p.state.1 }

end Pipeline

/-- A pipeline with what came of a history: the tasks that were queued, and those
that were handed to it after its shutdown. -/
structure PipelineHistory (σ : Type) where
  pipeline : Pipeline σ
  entered : List Task := []
  late : List Task := []

namespace PipelineHistory

def step (h : Handler σ) (x : PipelineHistory σ) (a : PipelineAct) : PipelineHistory σ where
  pipeline := x.pipeline.act h a
  entered := x.entered ++ x.pipeline.queue.arrived (x.pipeline.act h a).queue
  late := if x.pipeline.stopped then x.late ++ a.handed else x.late

def run (h : Handler σ) (acts : List PipelineAct) (x : PipelineHistory σ) : PipelineHistory σ :=
  acts.foldl (step h) x

end PipelineHistory

end ChunkStream
