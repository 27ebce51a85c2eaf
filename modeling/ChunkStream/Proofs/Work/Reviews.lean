import ChunkStream.Proofs.Box.Walk
import ChunkStream.Proofs.Work.Tasks

/-!
# The reviews of a queue

A queue marks the coordinates that wait for a review and merges a second review
into the first.  Merging loses nothing because the marks are exactly the
coordinates of the waiting reviews, each once: a push to an open queue leaves
the review waiting in every case, and a pop takes away the mark of what it takes
and no other.
-/

namespace ChunkStream

namespace Task

/-- The coordinates that some tasks review. -/
def reviewed (ts : List Task) : List Coord := (ts.filter isReview).map coord

@[simp]
theorem reviewed_cons (t : Task) (ts : List Task) :
    reviewed (t :: ts) =
      if t.isReview then t.coord :: reviewed ts else reviewed ts := by
  cases h : t.isReview <;> simp [reviewed, h]

theorem mem_reviewed {ts : List Task} {c : Coord} :
    c ∈ reviewed ts ↔ .review c ∈ ts := by
  simp only [reviewed, List.mem_map, List.mem_filter]
  constructor
  · rintro ⟨t, ⟨ht, hreview⟩, rfl⟩
    obtain ⟨c, rfl⟩ := exists_review hreview
    exact ht
  · exact fun h => ⟨.review c, ⟨h, rfl⟩, rfl⟩

theorem perm_reviewed {ts us : List Task} (h : ts.Perm us) :
    (reviewed ts).Perm (reviewed us) :=
  (h.filter _).map _

end Task

namespace TaskQueue

variable {q q' : TaskQueue} {p : Priority} {t : Task} {c : Coord}

/-- The marks are the coordinates of the waiting reviews, each once. -/
structure Marked (q : TaskQueue) : Prop where
  perm : q.reviews.Perm (Task.reviewed q.tasks)
  nodup : q.reviews.Nodup

theorem marked_empty : Marked empty := ⟨.refl [], List.nodup_nil⟩

theorem Marked.mem_tasks (hq : Marked q) (hc : c ∈ q.reviews) :
    .review c ∈ q.tasks :=
  Task.mem_reviewed.1 (hq.perm.mem_iff.1 hc)

@[simp]
theorem reviews_refresh : (q.refresh p).reviews = q.reviews := by
  unfold refresh
  split <;> rfl

@[simp]
theorem reviews_enqueue : (q.enqueue p t).reviews = q.reviews := by
  simp [enqueue]

/-! ## Pushing -/

/-- Queueing a task that is not a review leaves the marks right. -/
theorem Marked.enqueue (hq : Marked q) (ht : t.isReview = false) :
    Marked (q.enqueue p t) := by
  constructor
  · rw [reviews_enqueue, tasks_enqueue, Task.reviewed_cons, ht]
    exact hq.perm
  · rw [reviews_enqueue]
    exact hq.nodup

/-- Queueing a review together with its mark does too. -/
theorem Marked.enqueue_review (hq : Marked q) (hc : c ∉ q.reviews) :
    Marked
      (({ q with reviews := c :: q.reviews } : TaskQueue).enqueue p
        (.review c)) := by
  constructor
  · rw [reviews_enqueue, tasks_enqueue]
    exact hq.perm.cons c
  · rw [reviews_enqueue]
    exact List.nodup_cons.2 ⟨hc, hq.nodup⟩

theorem Marked.accept (hq : Marked q)
    (hnew : t.isReview = true → t.coord ∉ q.reviews) :
    Marked (q.accept p t) := by
  cases hreview : t.isReview with
  | false =>
    rw [TaskQueue.accept, hreview]
    exact hq.enqueue hreview
  | true =>
    obtain ⟨c, rfl⟩ := Task.exists_review hreview
    exact hq.enqueue_review (hnew rfl)

theorem Marked.push (hq : Marked q) : Marked (q.push p t).1 :=
  push_preserve hq hq.accept

/-- Nothing that waits is lost by a push. -/
theorem mem_tasks_push {u : Task} (h : u ∈ q.tasks) :
    u ∈ (q.push p t).1.tasks :=
  push_preserve (P := fun r => u ∈ r.tasks) h fun _ => by
    rw [tasks_accept]
    exact List.mem_cons_of_mem t h

/-- A task that is pushed to an open queue waits there, also when it is
merged. -/
theorem Marked.mem_tasks_push (hq : Marked q) (hopen : q.closed = false) :
    t ∈ (q.push p t).1.tasks := by
  rcases push_cases p t q with
    ⟨hclosed, -⟩ | ⟨-, hreview, hmark, h⟩ | ⟨-, -, h⟩
  · rw [hopen] at hclosed
    cases hclosed
  · obtain ⟨c, rfl⟩ := Task.exists_review hreview
    rw [h]
    exact hq.mem_tasks hmark
  · rw [h, tasks_accept]
    exact List.mem_cons_self

/-! ## Popping -/

theorem Marked.pop (hq : Marked q) (hticketed : Ticketed q)
    (h : q.pop? p = some (t, q')) : Marked q' := by
  have hperm := Task.perm_reviewed (perm_pop hticketed h)
  obtain ⟨e, -, rfl, rfl⟩ := pop?_eq_some h
  have hreviews : ((q.refresh p).remove e).reviews
      = if e.task.isReview then q.reviews.erase e.task.coord
        else q.reviews := by
    simp only [remove, reviews_refresh]
  rw [Task.reviewed_cons] at hperm
  constructor
  · rw [hreviews]
    cases hreview : e.task.isReview with
    | true =>
      rw [hreview, if_pos rfl] at hperm
      have herase := (hq.perm.trans hperm).erase e.task.coord
      rwa [List.erase_cons_head] at herase
    | false =>
      rw [hreview, if_neg (by simp)] at hperm
      exact hq.perm.trans hperm
  · rw [hreviews]
    split
    · exact hq.nodup.erase _
    · exact hq.nodup

/-- A pop leaves what it does not take. -/
theorem mem_tasks_pop (hticketed : Ticketed q) (h : q.pop? p = some (t, q'))
    {u : Task} (hu : u ∈ q.tasks) (hne : u ≠ t) : u ∈ q'.tasks := by
  rcases List.mem_cons.1 ((perm_pop hticketed h).mem_iff.1 hu) with heq | hrest
  · exact absurd heq hne
  · exact hrest

end TaskQueue

namespace Pipeline

variable {p : Priority} {q : TaskQueue}

/-- Following up leaves the marks right, loses nothing that waits, and at an
open queue a review waits afterwards for each coordinate of the boxes. -/
theorem marked_followUp (bs : List Box) (hq : q.Marked) :
    (followUp p bs q).Marked
      ∧ (∀ t ∈ q.tasks, t ∈ (followUp p bs q).tasks)
      ∧ (q.closed = false → ∀ b ∈ bs, ∀ c, b.contains c = true →
        .review c ∈ (followUp p bs q).tasks) := by
  have hfold (cs : List Coord) {q : TaskQueue} (hq : q.Marked) :
      let r := cs.foldl (fun q c => (q.push p (.review c)).1) q
      r.Marked ∧ (∀ t ∈ q.tasks, t ∈ r.tasks)
        ∧ (q.closed = false → ∀ c ∈ cs, .review c ∈ r.tasks) := by
    induction cs generalizing q with
    | nil => exact ⟨hq, fun _ => id, fun _ c hc => by cases hc⟩
    | cons d cs ih =>
      obtain ⟨hmarked, hkept, hreviews⟩ := ih (hq.push (p := p)
        (t := .review d))
      refine ⟨hmarked, fun t ht => hkept t (TaskQueue.mem_tasks_push ht), ?_⟩
      intro hopen c hc
      rcases List.mem_cons.1 hc with rfl | hc
      · exact hkept _ (hq.mem_tasks_push hopen)
      · exact hreviews (TaskQueue.closed_push.trans hopen) c hc
  obtain ⟨hmarked, hkept, hreviews⟩ := hfold (bs.flatMap Box.toList) hq
  refine ⟨hmarked, hkept, fun hopen b hb c hc => hreviews hopen c ?_⟩
  exact List.mem_flatMap.2 ⟨b, hb, Box.mem_toList_iff.2 hc⟩

end Pipeline

end ChunkStream
