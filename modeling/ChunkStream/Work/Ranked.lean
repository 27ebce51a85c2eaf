import ChunkStream.Work.Queue

/-!
# A queue and its source of centers

A ranked queue is a task queue together with the priority it asks for centers.
It counts how often the centers were read, which happens once in each epoch in
which the order matters.
-/

namespace ChunkStream

structure RankedQueue where
  queue : TaskQueue
  priority : Priority
  readings : Nat
deriving DecidableEq, Repr

namespace RankedQueue

/-- An empty queue in epoch zero. -/
def start (centers : List Coord) : RankedQueue := ⟨.empty, ⟨0, centers⟩, 0⟩

/-- The queue after an operation; a new epoch in it is a reading. -/
def next (r : RankedQueue) (q : TaskQueue) : RankedQueue :=
  { r with queue := q, readings := if q.epoch = r.queue.epoch then r.readings else r.readings + 1 }

/-- Moves the source to other centers. -/
def recenter (p : Priority) (r : RankedQueue) : RankedQueue := { r with priority := p }

def push (t : Task) (r : RankedQueue) : Pushed × RankedQueue :=
  let (q, pushed) := r.queue.push r.priority t
  (pushed, r.next q)

/-- Takes the task that is served now, if any. -/
def pop (r : RankedQueue) : Option Task × RankedQueue :=
  match r.queue.pop? r.priority with
  | none => (none, r)
  | some (t, q) => (some t, r.next q)

/-- Takes up to `n` tasks. -/
def popMany : Nat → RankedQueue → List Task × RankedQueue
  | 0, r => ([], r)
  | n + 1, r =>
      match r.pop with
      | (none, r) => ([], r)
      | (some t, r) =>
          let (ts, r) := popMany n r
          (t :: ts, r)

/-- Takes all tasks. -/
def drain (r : RankedQueue) : List Task × RankedQueue := popMany r.queue.size r

def close (r : RankedQueue) : List Task × RankedQueue :=
  let (ts, q) := r.queue.close
  (ts, r.next q)

end RankedQueue

end ChunkStream
