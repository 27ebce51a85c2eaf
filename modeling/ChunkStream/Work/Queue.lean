import ChunkStream.Work.Task

/-!
# The task queue

Tasks are served nearest first: by the distance of their coordinate to the
nearest center, then by age.  Scores are kept with the entries and computed
again only when the source of centers has moved to another epoch, just before
the order matters.  At most one review waits for a coordinate; a second one is
merged into it.  Closing hands back what was not served.
-/

namespace ChunkStream

/-- The centers that tasks are ranked by.  The epoch changes whenever the
centers do. -/
structure Priority where
  epoch : Nat
  centers : List Coord
deriving DecidableEq, Repr, Inhabited

/-- The score of a coordinate without centers. -/
def worstScore : Nat := 2147483647

/-- Distance to the nearest center. -/
def score (centers : List Coord) (c : Coord) : Nat :=
  (centers.map (·.distance c)).min?.getD worstScore

/-- A waiting task with its score and its place in the order of arrival. -/
structure Entry where
  score : Nat
  ticket : Nat
  task : Task
deriving DecidableEq, Repr

namespace Entry

/-- Lower scores are served first, and equal scores in order of arrival. -/
def before (a b : Entry) : Bool :=
  a.score < b.score || (a.score == b.score && a.ticket < b.ticket)

def le (a b : Entry) : Bool := !b.before a

/-- The entry that is served first. -/
def first? : List Entry → Option Entry
  | [] => none
  | e :: rest =>
      match first? rest with
      | none => some e
      | some f => if f.before e then some f else some e

end Entry

/-- The entries stand latest first. -/
structure TaskQueue where
  entries : List Entry
  reviews : List Coord
  centers : List Coord
  epoch : Option Nat
  nextTicket : Nat
  closed : Bool
deriving DecidableEq, Repr

/-- What became of a pushed task. -/
inductive Pushed
  | queued
  | merged
  | refused
deriving DecidableEq, Repr

namespace TaskQueue

def empty : TaskQueue := ⟨[], [], [], none, 0, false⟩

def size (q : TaskQueue) : Nat := q.entries.length

def tasks (q : TaskQueue) : List Task := q.entries.map (·.task)

/-- Takes over the centers of another epoch and scores every entry again. -/
def refresh (p : Priority) (q : TaskQueue) : TaskQueue :=
  if q.epoch = some p.epoch then q
  else
    { q with
      centers := p.centers
      epoch := some p.epoch
      entries := q.entries.map fun e => { e with score := score p.centers e.task.coord } }

/-- Adds an entry for a task that is not a duplicate. -/
def enqueue (p : Priority) (t : Task) (q : TaskQueue) : TaskQueue :=
  let q := q.refresh p
  { q with
    entries := ⟨score q.centers t.coord, q.nextTicket, t⟩ :: q.entries
    nextTicket := q.nextTicket + 1 }

def push (p : Priority) (t : Task) (q : TaskQueue) : TaskQueue × Pushed :=
  if q.closed then (q, .refused)
  else if t.isReview then
    if t.coord ∈ q.reviews then (q, .merged)
    else ({ q with reviews := t.coord :: q.reviews }.enqueue p t, .queued)
  else (q.enqueue p t, .queued)

/-- Removes an entry, and the mark of its coordinate if it is a review. -/
def remove (e : Entry) (q : TaskQueue) : TaskQueue :=
  { q with
    entries := q.entries.filter fun f => f.ticket ≠ e.ticket
    reviews := if e.task.isReview then q.reviews.erase e.task.coord else q.reviews }

/-- The task that is served now and the queue without it; nothing when the queue
is empty or closed. -/
def pop? (p : Priority) (q : TaskQueue) : Option (Task × TaskQueue) :=
  if q.closed || q.entries.isEmpty then none
  else
    let q := q.refresh p
    match Entry.first? q.entries with
    | none => none
    | some e => some (e.task, q.remove e)

/-- The waiting tasks in serving order, by the scores they had last, and the
closed queue. -/
def close (q : TaskQueue) : List Task × TaskQueue :=
  ((q.entries.mergeSort Entry.le).map (·.task),
    { q with entries := [], reviews := [], closed := true })

end TaskQueue

end ChunkStream
