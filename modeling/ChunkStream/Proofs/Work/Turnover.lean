import ChunkStream.Proofs.Work.Reviews
import ChunkStream.Work.History

/-!
# The turnover of a queue

A queue neither loses nor doubles a task: what was added has been served, waits,
or was given back by closing.  A push is answered as done without adding its
task only where the same review waits already, because the marks of a queue are
the coordinates of its waiting reviews.  Both are kept by every act, so they
hold along every history.
-/

namespace ChunkStream

namespace TaskQueue

variable {q q' : TaskQueue} {p : Priority} {t : Task}

theorem tasks_close : q.close.2.tasks = [] := rfl

/-- Closing gives back what waits. -/
theorem perm_close : q.close.1.Perm q.tasks :=
  (List.mergeSort_perm q.entries Entry.le).map _

theorem marked_close : Marked q.close.2 :=
  ⟨.refl [], List.nodup_nil⟩

/-- The waiting reviews are distinct. -/
theorem Marked.count_review_le (hq : Marked q) (c : Coord) :
    q.tasks.count (.review c) ≤ 1 := by
  have hreviewed : (Task.reviewed q.tasks).count c
      = q.tasks.count (.review c) := by
    induction q.tasks with
    | nil => rfl
    | cons t ts ih =>
      rw [Task.reviewed_cons]
      cases t <;> simp [Task.isReview, Task.coord, List.count_cons, ih]
  rw [← hreviewed, ← hq.perm.count_eq]
  exact List.nodup_iff_count_le_one.1 hq.nodup c

end TaskQueue

namespace RankedQueue

variable {r : RankedQueue} {replies : List QueueReply} {p : Priority} {t : Task}

/-! ## Single acts -/

theorem next_self (r : RankedQueue) : r.next r.queue = r := by
  simp [next]

@[simp]
theorem queue_next (r : RankedQueue) (q : TaskQueue) : (r.next q).queue = q :=
  rfl

theorem push_cases (t : Task) (r : RankedQueue) :
    (r.queue.closed = true ∧ r.push t = (.refused, r))
      ∨ (r.queue.closed = false ∧ t.isReview = true ∧ t.coord ∈ r.queue.reviews
        ∧ r.push t = (.merged, r))
      ∨ (r.queue.closed = false
        ∧ (t.isReview = true → t.coord ∉ r.queue.reviews)
        ∧ r.push t = (.queued, r.next (r.queue.accept r.priority t))) := by
  rcases TaskQueue.push_cases r.priority t r.queue with
    ⟨hclosed, h⟩ | ⟨hopen, hreview, hmark, h⟩ | ⟨hopen, hnew, h⟩
  · exact .inl ⟨hclosed, by simp [push, h, next_self]⟩
  · exact .inr (.inl ⟨hopen, hreview, hmark, by simp [push, h, next_self]⟩)
  · exact .inr (.inr ⟨hopen, hnew, by simp [push, h]⟩)

theorem closed_of_refused (h : (r.push t).1 = .refused) :
    r.queue.closed = true := by
  rcases push_cases t r with ⟨hclosed, -⟩ | ⟨-, -, -, hpush⟩ | ⟨-, -, hpush⟩
  · exact hclosed
  · rw [hpush] at h
    cases h
  · rw [hpush] at h
    cases h

theorem tasks_of_queued (h : (r.push t).1 = .queued) :
    (r.push t).2.queue.tasks = t :: r.queue.tasks := by
  rcases push_cases t r with ⟨-, hpush⟩ | ⟨-, -, -, hpush⟩ | ⟨-, -, hpush⟩
  · rw [hpush] at h
    cases h
  · rw [hpush] at h
    cases h
  · rw [hpush, queue_next, TaskQueue.tasks_accept]

/-- Only a review that waits is merged. -/
theorem waits_of_merged (hmarked : r.queue.Marked)
    (h : (r.push t).1 = .merged) :
    (r.push t).2 = r ∧ t.isReview = true ∧ t ∈ r.queue.tasks := by
  rcases push_cases t r with ⟨-, hpush⟩ | ⟨-, hreview, hmark, hpush⟩
    | ⟨-, -, hpush⟩
  · rw [hpush] at h
    cases h
  · obtain ⟨c, rfl⟩ := Task.exists_review hreview
    rw [hpush]
    exact ⟨rfl, hreview, hmarked.mem_tasks hmark⟩
  · rw [hpush] at h
    cases h

theorem push_of_closed (h : r.queue.closed = true) (t : Task) :
    r.push t = (.refused, r) := by
  simp [push, TaskQueue.push_of_closed h, next_self]

theorem pop_cases (r : RankedQueue) :
    ((r.queue.closed = true ∨ r.queue.tasks = []) ∧ r.pop = (none, r))
      ∨ ∃ t q, r.queue.pop? r.priority = some (t, q)
        ∧ r.pop = (some t, r.next q) := by
  cases h : r.queue.pop? r.priority with
  | none => exact .inl ⟨TaskQueue.pop?_eq_none_iff.1 h, by simp [pop, h]⟩
  | some served => exact .inr ⟨served.1, served.2, rfl, by simp [pop, h]⟩

/-! ## Histories -/

theorem run_concat (acts : List QueueAct) (a : QueueAct) (r : RankedQueue) :
    r.run (acts ++ [a])
      = ((r.run acts).1 ++ [((r.run acts).2.act a).1],
        ((r.run acts).2.act a).2) :=
  List.foldl_concat _ _ _ _

/-- A queue is closed when an act has closed it. -/
theorem closed_run {acts : List QueueAct} :
    (r.run acts).2.queue.closed = true
      ↔ r.queue.closed = true ∨ .close ∈ acts := by
  induction acts using List.reverseRecOn with
  | nil => simp [run]
  | append_singleton acts a ih =>
    rw [run_concat]
    cases a with
    | push t =>
      have hpush : ((r.run acts).2.push t).2.queue.closed
          = (r.run acts).2.queue.closed := TaskQueue.closed_push
      simp [act, hpush, ih]
    | pop =>
      rcases pop_cases (r.run acts).2 with ⟨-, h⟩ | ⟨t, q, hpop, h⟩
      · simp [act, h, ih]
      · simp [act, h, TaskQueue.closed_pop hpop, ih]
    | recenter p => simp [act, recenter, ih]
    | close => simp [act, close, TaskQueue.close]

/-- The tasks that were added are those that were served, those that wait and
those that were given back; and the marks of the queue are right. -/
structure Balanced (replies : List QueueReply) (r : RankedQueue) : Prop where
  ticketed : r.queue.Ticketed
  marked : r.queue.Marked
  perm : (replies.filterMap QueueReply.entered?).Perm
    (replies.filterMap QueueReply.served? ++ r.queue.tasks
      ++ replies.flatMap QueueReply.returned)
  halted : r.queue.closed = true → r.queue.tasks = []

namespace Balanced

theorem fresh (p : Priority) : Balanced [] (fresh p) :=
  ⟨TaskQueue.ticketed_empty, TaskQueue.marked_empty, .refl [], fun _ => rfl⟩

/-- What was added and what waited before an answer must be what is served, what
waits and what is given back with it. -/
theorem perm_concat (hr : Balanced replies r) {reply : QueueReply}
    {q : TaskQueue}
    (h : (reply.entered?.toList ++ r.queue.tasks).Perm
      (reply.served?.toList ++ q.tasks ++ reply.returned)) :
    ((replies ++ [reply]).filterMap QueueReply.entered?).Perm
      ((replies ++ [reply]).filterMap QueueReply.served? ++ q.tasks
        ++ (replies ++ [reply]).flatMap QueueReply.returned) := by
  rw [List.perm_iff_count]
  intro u
  have hbefore := hr.perm.count_eq u
  have hanswer := h.count_eq u
  simp only [List.filterMap_eq_flatMap_toList, List.flatMap_append,
    List.flatMap_singleton, List.count_append] at hbefore hanswer ⊢
  omega

/-- An answer that tells of no task comes with the same tasks. -/
theorem of_tasks_eq {next : RankedQueue} {reply : QueueReply}
    (hr : Balanced replies r) (hqueue : next.queue = r.queue)
    (hentered : reply.entered? = none) (hserved : reply.served? = none)
    (hreturned : reply.returned = []) :
    Balanced (replies ++ [reply]) next := by
  refine ⟨hqueue ▸ hr.ticketed, hqueue ▸ hr.marked, hr.perm_concat ?_,
    hqueue ▸ hr.halted⟩
  simp [hqueue, hentered, hserved, hreturned]

theorem push (hr : Balanced replies r) (t : Task) :
    Balanced (replies ++ [.pushed t (r.push t).1]) (r.push t).2 := by
  rcases push_cases t r with
    ⟨-, h⟩ | ⟨-, -, -, h⟩ | ⟨hopen, hnew, h⟩
  · rw [h]
    exact hr.of_tasks_eq rfl rfl rfl rfl
  · rw [h]
    exact hr.of_tasks_eq rfl rfl rfl rfl
  · rw [h]
    refine ⟨hr.ticketed.accept, hr.marked.accept hnew, hr.perm_concat ?_, ?_⟩
    · simp [QueueReply.entered?, QueueReply.served?, QueueReply.returned]
    · intro hclosed
      rw [queue_next, TaskQueue.closed_accept, hopen] at hclosed
      cases hclosed

theorem pop (hr : Balanced replies r) :
    Balanced (replies ++ [.popped r.pop.1]) r.pop.2 := by
  rcases pop_cases r with ⟨-, h⟩ | ⟨t, q, hpop, h⟩
  · rw [h]
    exact hr.of_tasks_eq rfl rfl rfl rfl
  · rw [h]
    have hperm := TaskQueue.perm_pop hr.ticketed hpop
    refine ⟨hr.ticketed.pop hpop, hr.marked.pop hr.ticketed hpop,
      hr.perm_concat ?_, ?_⟩
    · simpa [QueueReply.entered?, QueueReply.served?, QueueReply.returned]
        using hperm
    · intro hclosed
      have hnone := hr.halted ((TaskQueue.closed_pop hpop).symm.trans hclosed)
      rw [hnone] at hperm
      cases hperm.nil_eq

theorem close (hr : Balanced replies r) :
    Balanced (replies ++ [.closed r.close.1]) r.close.2 := by
  have hclose : r.close = (r.queue.close.1, r.next r.queue.close.2) := rfl
  rw [hclose]
  refine ⟨TaskQueue.ticketed_close, TaskQueue.marked_close, hr.perm_concat ?_,
    fun _ => rfl⟩
  exact TaskQueue.perm_close.symm

theorem act (hr : Balanced replies r) (a : QueueAct) :
    Balanced (replies ++ [(r.act a).1]) (r.act a).2 := by
  cases a with
  | push t => exact hr.push t
  | pop => exact hr.pop
  | recenter p => exact hr.of_tasks_eq rfl rfl rfl rfl
  | close => exact hr.close

theorem run (p : Priority) (acts : List QueueAct) :
    Balanced ((RankedQueue.fresh p).run acts).1
      ((RankedQueue.fresh p).run acts).2 := by
  induction acts using List.reverseRecOn with
  | nil => exact fresh p
  | append_singleton acts a ih =>
    rw [run_concat]
    exact ih.act a

end Balanced

/-- Where the queue is right, only an empty one serves nothing. -/
theorem Balanced.pop_eq_none_iff (hr : Balanced replies r) :
    r.pop.1 = none ↔ r.queue.tasks = [] := by
  rcases pop_cases r with ⟨hnone, h⟩ | ⟨t, q, hpop, h⟩
  · rw [h]
    exact ⟨fun _ => hnone.elim hr.halted id, fun _ => rfl⟩
  · have hperm := TaskQueue.perm_pop hr.ticketed hpop
    rw [h]
    constructor
    · intro hserved
      cases hserved
    · intro hempty
      rw [hempty] at hperm
      cases hperm.nil_eq

theorem closed_run_fresh (p : Priority) (acts : List QueueAct) :
    ((fresh p).run acts).2.queue.closed = true ↔ .close ∈ acts :=
  closed_run.trans (by simp [fresh, TaskQueue.empty])

/-- Along every history of a queue the tasks that were added are those that were
served, those that wait and those that closing gave back.  The marks are the
coordinates of the waiting reviews, and none of these waits twice.  A push that
is answered as done adds its task, or the same review waits already, and a pop
is in vain only where nothing waits.  After the closing, and only then, a push
hands its task back, and the queue stays empty. -/
theorem tasks_conserved (p : Priority) (acts : List QueueAct) :
    let replies := ((fresh p).run acts).1
    let r := ((fresh p).run acts).2
    (replies.filterMap QueueReply.entered?).Perm
        (replies.filterMap QueueReply.served? ++ r.queue.tasks
          ++ replies.flatMap QueueReply.returned)
      ∧ (∀ c, c ∈ r.queue.reviews ↔ .review c ∈ r.queue.tasks)
      ∧ r.queue.reviews.Nodup
      ∧ (∀ c, r.queue.tasks.count (.review c) ≤ 1)
      ∧ (∀ t, (r.push t).1 = .queued →
        (r.push t).2.queue.tasks = t :: r.queue.tasks)
      ∧ (∀ t, (r.push t).1 = .merged →
        (r.push t).2 = r ∧ t.isReview = true ∧ t ∈ r.queue.tasks)
      ∧ (∀ t, (r.push t).1 = .refused → .close ∈ acts)
      ∧ (r.pop.1 = none ↔ r.queue.tasks = [])
      ∧ (.close ∈ acts → r.queue.tasks = [] ∧ r.pop = (none, r)
        ∧ ∀ t, r.push t = (.refused, r)) := by
  intro replies r
  have hr : Balanced replies r := Balanced.run p acts
  have hclosed : r.queue.closed = true ↔ .close ∈ acts :=
    closed_run_fresh p acts
  refine ⟨hr.perm, ?_, hr.marked.nodup, hr.marked.count_review_le,
    fun _ => tasks_of_queued, fun _ => waits_of_merged hr.marked,
    fun _ h => hclosed.1 (closed_of_refused h), hr.pop_eq_none_iff, ?_⟩
  · intro c
    rw [hr.marked.perm.mem_iff, Task.mem_reviewed]
  · intro hclose
    have hstopped := hclosed.2 hclose
    refine ⟨hr.halted hstopped, ?_, push_of_closed hstopped⟩
    rcases pop_cases r with ⟨-, h⟩ | ⟨t, q, hpop, -⟩
    · exact h
    · rw [TaskQueue.pop?_eq_none_iff.2 (.inl hstopped)] at hpop
      cases hpop

end RankedQueue

end ChunkStream
