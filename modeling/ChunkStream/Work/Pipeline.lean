import ChunkStream.Box
import ChunkStream.Log
import ChunkStream.Work.Queue

/-!
# The pipeline

A pipeline feeds the tasks of a queue to a worker.  What a task does is up to a
handler, which also claims coordinates for production and takes back the tasks
that will never run.  The handler's state is part of the pipeline, so a
pipeline is a state machine: calls from outside and single steps of the worker
each map a pipeline to a pipeline.

A running task ends in success, failure, cancellation or a fault; the worker
survives all of them.  The reviews it asks for are queued after it.
-/

namespace ChunkStream

/-- What the pipeline tells its handler about itself. -/
inductive PipelineNotice
  | started (workers : Nat)
  | cancelled (task : Task)
  | failed (task : Task) (cause : TaskError)
  | faulted (task : Task)
  | refused (task : Task)
  | discarding (count : Nat)
  | stopped
deriving DecidableEq, Repr

def PipelineNotice.line : PipelineNotice → LogLine
  | .started workers => ⟨.debug, s!"production pipeline started with {workers} workers"⟩
  | .cancelled task => ⟨.debug, s!"{task.debugText} cancelled"⟩
  | .failed task cause => ⟨.warn, s!"{task.debugText} failed: {cause.message}"⟩
  | .faulted task => ⟨.error, s!"{task.debugText} panicked"⟩
  | .refused task => ⟨.debug, s!"pipeline closed, discarding {task.debugText}"⟩
  | .discarding count => ⟨.debug, s!"discarding {count} queued tasks"⟩
  | .stopped => ⟨.debug, "production pipeline stopped"⟩

inductive PipelineError
  | noWorkers
deriving DecidableEq, Repr

def PipelineError.message : PipelineError → String
  | .noWorkers => "pipeline needs at least one worker"

/-- What a task left behind: the handler's state, the boxes to review, whether
it cancelled all further work, and how it ended. -/
structure Ran (σ : Type) where
  state : σ
  reviews : List Box := []
  cancels : Bool := false
  outcome : Except (Failure TaskError) Unit := .ok ()

/-- What the pipeline needs from its owner.  `run` is told whether work has been
cancelled. -/
structure Handler (σ : Type) where
  priority : σ → Priority
  prepare : Coord → σ → Option Task × σ
  run : Bool → Task → σ → Ran σ
  discard : Task → σ → σ
  notify : PipelineNotice → σ → σ

/-- `inflight` counts the tasks that are being run. -/
structure Pipeline (σ : Type) where
  state : σ
  queue : TaskQueue
  workers : Nat
  cancelled : Bool
  stopped : Bool
  inflight : Nat := 0
  completed : Nat
  failed : Nat

namespace Pipeline

variable {σ : Type}

/-- A pipeline with nothing to do. -/
def start (h : Handler σ) (workers : Nat) (state : σ) : Except PipelineError (Pipeline σ) :=
  if workers = 0 then .error .noWorkers
  else
    .ok
      { state := h.notify (.started workers) state
        queue := .empty
        workers := workers
        cancelled := false
        stopped := false
        inflight := 0
        completed := 0
        failed := 0 }

/-- Queues a task.  A closed queue hands it back, and it is discarded. -/
def submit (h : Handler σ) (t : Task) (p : Pipeline σ) : Pipeline σ :=
  match p.queue.push (h.priority p.state) t with
  | (_, .refused) => { p with state := h.discard t (h.notify (.refused t) p.state) }
  | (queue, _) => { p with queue := queue }

/-- Claims a coordinate and queues its production; tells whether it did. -/
def request (h : Handler σ) (c : Coord) (p : Pipeline σ) : Bool × Pipeline σ :=
  if p.stopped then (false, p)
  else
    match h.prepare c p.state with
    | (none, state) => (false, { p with state := state })
    | (some t, state) => (true, submit h t { p with state := state })

/-- Requests each coordinate in turn; counts the tasks. -/
def requestEach (h : Handler σ) (cs : List Coord) (p : Pipeline σ) : Nat × Pipeline σ :=
  cs.foldl
    (fun acc c =>
      let (claimed, p) := request h c acc.2
      (if claimed then acc.1 + 1 else acc.1, p))
    (0, p)

def requestBox (h : Handler σ) (b : Box) (p : Pipeline σ) : Nat × Pipeline σ :=
  requestEach h b.toList p

/-- Queues a review of every coordinate of a box. -/
def requestReview (h : Handler σ) (b : Box) (p : Pipeline σ) : Pipeline σ :=
  b.toList.foldl (fun p c => submit h (.review c) p) p

def cancel (p : Pipeline σ) : Pipeline σ := { p with cancelled := true }

/-- Queues the reviews that a task asked for.  A closed queue drops them, for
they hold no claim. -/
def followUp (priority : Priority) (boxes : List Box) (q : TaskQueue) : TaskQueue :=
  (boxes.flatMap Box.toList).foldl (fun q c => (q.push priority (.review c)).1) q

/-- Counts how a task ended. -/
def conclude (h : Handler σ) (t : Task) (outcome : Except (Failure TaskError) Unit)
    (p : Pipeline σ) : Pipeline σ :=
  match outcome with
  | .ok () => { p with completed := p.completed + 1 }
  | .error (.error .cancelled) => { p with state := h.notify (.cancelled t) p.state }
  | .error (.error cause) =>
      { p with failed := p.failed + 1, state := h.notify (.failed t cause) p.state }
  | .error (.fault _) =>
      { p with failed := p.failed + 1, state := h.notify (.faulted t) p.state }

/-- Runs one task to its end. -/
def runTask (h : Handler σ) (t : Task) (p : Pipeline σ) : Pipeline σ :=
  let p := { p with inflight := p.inflight + 1 }
  let ran := h.run p.cancelled t p.state
  conclude h t ran.outcome
    { p with
      state := ran.state
      queue := followUp (h.priority ran.state) ran.reviews p.queue
      cancelled := p.cancelled || ran.cancels
      inflight := p.inflight - 1 }

/-- One step of the worker: it takes a task and runs it.  Nothing when there is
no task to take. -/
def work? (h : Handler σ) (p : Pipeline σ) : Option (Pipeline σ) :=
  match p.queue.pop? (h.priority p.state) with
  | none => none
  | some (t, queue) => some (runTask h t { p with queue := queue })

/-- At most `n` steps of the worker. -/
def settle (h : Handler σ) : Nat → Pipeline σ → Pipeline σ
  | 0, p => p
  | n + 1, p =>
      match work? h p with
      | none => p
      | some p => settle h n p

/-- Cancels work, closes the queue and discards what was waiting.  A second
shutdown does nothing. -/
def shutdown (h : Handler σ) (p : Pipeline σ) : Pipeline σ :=
  if p.stopped then p
  else
    let (pending, queue) := p.queue.close
    let state := if pending.isEmpty then p.state else h.notify (.discarding pending.length) p.state
    let state := pending.foldl (fun s t => h.discard t s) state
    { p with
      state := h.notify .stopped state
      queue := queue
      cancelled := true
      stopped := true }

end Pipeline

/-- A summary of a pipeline. -/
structure PipelineStats where
  workers : Nat
  queued : Nat
  inflight : Nat
  completed : Nat
  failed : Nat
deriving DecidableEq, Repr

def Pipeline.stats {σ : Type} (p : Pipeline σ) : PipelineStats :=
  ⟨p.workers, p.queue.size, p.inflight, p.completed, p.failed⟩

end ChunkStream
