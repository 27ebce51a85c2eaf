import ChunkStream.Proofs.Work.Tasks

/-!
# Tasks that arrive in another order

Queueing takes over the centers of the moment and adds entries; which task came
first shows in the tickets alone.  So the same tasks, queued in any two orders,
leave queues that are alike: they hold the same tasks with the same scores, and
all else is equal.
-/

namespace ChunkStream.TaskQueue

variable {q r s : TaskQueue} {p : Priority} {t u : Task} {ts us : List Task}

/-- The tasks of a queue with their scores. -/
def scored (q : TaskQueue) : List (Nat × Task) :=
  q.entries.map fun e => (e.score, e.task)

/-- The queues differ at most in the tickets of their tasks. -/
structure Alike (q r : TaskQueue) : Prop where
  scored : r.scored.Perm q.scored
  reviews : r.reviews = q.reviews
  centers : r.centers = q.centers
  epoch : r.epoch = q.epoch
  nextTicket : r.nextTicket = q.nextTicket
  closed : r.closed = q.closed

namespace Alike

protected theorem refl (q : TaskQueue) : Alike q q :=
  ⟨.refl _, rfl, rfl, rfl, rfl, rfl⟩

protected theorem trans (h : Alike q r) (h' : Alike r s) : Alike q s :=
  ⟨h'.scored.trans h.scored, h'.reviews.trans h.reviews,
    h'.centers.trans h.centers, h'.epoch.trans h.epoch,
    h'.nextTicket.trans h.nextTicket, h'.closed.trans h.closed⟩

theorem refresh (h : Alike q r) : Alike (q.refresh p) (r.refresh p) := by
  unfold TaskQueue.refresh
  rw [h.epoch]
  split
  · exact h
  · refine ⟨?_, h.reviews, rfl, rfl, h.nextTicket, h.closed⟩
    have hagain := h.scored.map fun e => (score p.centers e.2.coord, e.2)
    simpa [TaskQueue.scored, Function.comp_def] using hagain

theorem enqueue (h : Alike q r) : Alike (q.enqueue p t) (r.enqueue p t) := by
  have hagain := h.refresh (p := p)
  refine ⟨?_, hagain.reviews, hagain.centers, hagain.epoch,
    congrArg (· + 1) hagain.nextTicket, hagain.closed⟩
  show List.Perm ((score (r.refresh p).centers t.coord, t)
      :: (r.refresh p).scored)
    ((score (q.refresh p).centers t.coord, t) :: (q.refresh p).scored)
  rw [hagain.centers]
  exact hagain.scored.cons _

end Alike

theorem refresh_enqueue : (q.enqueue p t).refresh p = q.enqueue p t := by
  have hepoch : (q.enqueue p t).epoch = some p.epoch := by
    show (q.refresh p).epoch = some p.epoch
    unfold refresh
    split
    · next h => exact h
    · rfl
  exact if_pos hepoch

/-- The centers have been taken over with the first task, so the second one
finds them whichever it is. -/
theorem Alike.enqueue_comm : Alike ((q.enqueue p t).enqueue p u)
    ((q.enqueue p u).enqueue p t) := by
  have hboth (t u : Task) : (q.enqueue p t).enqueue p u
      = { q.refresh p with
          entries :=
            ⟨score (q.refresh p).centers u.coord, (q.refresh p).nextTicket + 1,
              u⟩ :: (q.enqueue p t).entries
          nextTicket := (q.refresh p).nextTicket + 2 } := by
    have hagain := refresh_enqueue (q := q) (p := p) (t := t)
    have hnext (r : TaskQueue) (h : r.refresh p = r) : r.enqueue p u
        = { r with
            entries := ⟨score r.centers u.coord, r.nextTicket, u⟩ :: r.entries
            nextTicket := r.nextTicket + 1 } := by
      rw [TaskQueue.enqueue, h]
    exact hnext _ hagain
  rw [hboth, hboth]
  exact ⟨.swap _ _ _, rfl, rfl, rfl, rfl, rfl⟩

/-- The queue with tasks added one after another. -/
def enqueueAll (p : Priority) (ts : List Task) (q : TaskQueue) : TaskQueue :=
  ts.foldl (fun q t => q.enqueue p t) q

theorem enqueueAll_append (ts us : List Task) (q : TaskQueue) :
    q.enqueueAll p (ts ++ us) = (q.enqueueAll p ts).enqueueAll p us :=
  List.foldl_append

theorem tasks_enqueueAll (ts : List Task) (q : TaskQueue) :
    (q.enqueueAll p ts).tasks = ts.reverse ++ q.tasks := by
  induction ts generalizing q with
  | nil => rfl
  | cons t ts ih =>
    show ((q.enqueue p t).enqueueAll p ts).tasks = _
    rw [ih, tasks_enqueue]
    simp

@[simp]
theorem closed_enqueueAll (ts : List Task) (q : TaskQueue) :
    (q.enqueueAll p ts).closed = q.closed := by
  induction ts generalizing q with
  | nil => rfl
  | cons t ts ih => exact (ih (q.enqueue p t)).trans closed_enqueue

theorem Alike.enqueueAll (h : Alike q r) (ts : List Task) :
    Alike (q.enqueueAll p ts) (r.enqueueAll p ts) := by
  induction ts generalizing q r with
  | nil => exact h
  | cons t ts ih => exact ih h.enqueue

/-- The order in which tasks are added shows in their tickets alone. -/
theorem alike_enqueueAll_of_perm (h : us.Perm ts) (q : TaskQueue) :
    Alike (q.enqueueAll p ts) (q.enqueueAll p us) := by
  induction h generalizing q with
  | nil => exact .refl q
  | cons t _ ih => exact ih (q.enqueue p t)
  | swap t u ts => exact Alike.enqueue_comm.enqueueAll ts
  | trans _ _ ih ih' => exact (ih' q).trans (ih q)

end ChunkStream.TaskQueue
