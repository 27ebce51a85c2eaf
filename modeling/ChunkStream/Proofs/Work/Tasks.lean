import ChunkStream.Work.Pipeline
import Mathlib.Data.List.Nodup

/-!
# The tasks of a queue

For most of what a queue is used for its scores do not matter, only which tasks
wait in it.  This module says what every operation does to the list of waiting
tasks: a push adds its task, merges it or hands it back, and a pop takes out
one task and leaves all others.  The last fact rests on the tickets, which are
given out in order and never twice.
-/

namespace ChunkStream

namespace Task

/-- The coordinates that some tasks load or generate. -/
def productions (ts : List Task) : List Coord :=
  (ts.filter fun t => !t.isReview).map coord

@[simp]
theorem productions_nil : productions [] = [] := rfl

@[simp]
theorem productions_cons (t : Task) (ts : List Task) :
    productions (t :: ts) =
      if t.isReview then productions ts else t.coord :: productions ts := by
  cases h : t.isReview <;> simp [productions, h]

theorem mem_productions {ts : List Task} {c : Coord} :
    c ∈ productions ts ↔ ∃ t ∈ ts, t.isReview = false ∧ t.coord = c := by
  simp [productions, and_assoc]

theorem exists_review {t : Task} (h : t.isReview = true) :
    ∃ c, t = .review c := by
  cases t with
  | review c => exact ⟨c, rfl⟩
  | load c => cases h
  | generate c => cases h

theorem perm_productions {ts us : List Task} (h : ts.Perm us) :
    (productions ts).Perm (productions us) :=
  (h.filter _).map _

end Task

theorem Entry.mem_of_first?_eq_some {es : List Entry} {e : Entry}
    (h : Entry.first? es = some e) : e ∈ es := by
  induction es generalizing e with
  | nil => simp [first?] at h
  | cons d rest ih =>
    cases hrest : first? rest with
    | none =>
      simp only [first?, hrest, Option.some.injEq] at h
      simp [h]
    | some f =>
      have hf := ih hrest
      simp only [first?, hrest] at h
      split at h
      · cases h
        exact List.mem_cons_of_mem _ hf
      · cases h
        exact List.mem_cons_self

theorem Entry.first?_isSome {es : List Entry} (h : es ≠ []) :
    (Entry.first? es).isSome = true := by
  cases es with
  | nil => exact absurd rfl h
  | cons e rest =>
    cases hrest : first? rest with
    | none => simp [first?, hrest]
    | some f =>
      simp only [first?, hrest]
      split <;> rfl

/-- Of distinct keys only one is struck out. -/
theorem perm_cons_filter_ne {α : Type} {f : α → Nat} {l : List α}
    (hnodup : (l.map f).Nodup)
    {a : α} (ha : a ∈ l) : l.Perm (a :: l.filter fun b => f b ≠ f a) := by
  induction l with
  | nil => simp at ha
  | cons b rest ih =>
    simp only [List.map_cons, List.nodup_cons, List.mem_map, not_exists,
      not_and] at hnodup
    rcases List.mem_cons.1 ha with rfl | hrest
    · have hall : rest.filter (fun b => f b ≠ f a) = rest := by
        rw [List.filter_eq_self]
        intro b hb
        simpa using hnodup.1 b hb
      rw [List.filter_cons_of_neg (by simp), hall]
    · have hne : f b ≠ f a := fun h => hnodup.1 a hrest h.symm
      rw [List.filter_cons_of_pos (by simpa using hne)]
      exact ((ih hnodup.2 hrest).cons b).trans (List.Perm.swap a b _)

namespace TaskQueue

variable {q q' : TaskQueue} {p : Priority} {t : Task}

/-- Tickets are distinct, and the next one is new. -/
structure Ticketed (q : TaskQueue) : Prop where
  nodup : (q.entries.map (·.ticket)).Nodup
  below : ∀ e ∈ q.entries, e.ticket < q.nextTicket

theorem ticketed_empty : Ticketed empty :=
  ⟨List.nodup_nil, fun _ h => absurd h List.not_mem_nil⟩

/-! ## Scoring again -/

@[simp]
theorem tasks_refresh : (q.refresh p).tasks = q.tasks := by
  unfold refresh
  split
  · rfl
  · simp [tasks]

@[simp]
theorem closed_refresh : (q.refresh p).closed = q.closed := by
  unfold refresh
  split <;> rfl

theorem Ticketed.refresh (h : Ticketed q) : Ticketed (q.refresh p) := by
  unfold TaskQueue.refresh
  split
  · exact h
  · refine ⟨by simpa [Function.comp_def] using h.nodup, ?_⟩
    intro e he
    obtain ⟨d, hd, rfl⟩ := List.mem_map.1 he
    exact h.below d hd

/-! ## Pushing -/

@[simp]
theorem tasks_enqueue : (q.enqueue p t).tasks = t :: q.tasks := by
  have h := tasks_refresh (q := q) (p := p)
  simpa [enqueue, tasks] using h

@[simp]
theorem closed_enqueue : (q.enqueue p t).closed = q.closed := by
  simp [enqueue]

theorem Ticketed.enqueue (h : Ticketed q) : Ticketed (q.enqueue p t) := by
  have hr := h.refresh (p := p)
  constructor
  · simp only [TaskQueue.enqueue, List.map_cons, List.nodup_cons]
    refine ⟨?_, hr.nodup⟩
    intro hmem
    obtain ⟨e, he, heq⟩ := List.mem_map.1 hmem
    exact Nat.lt_irrefl _ (heq ▸ hr.below e he)
  · intro e he
    rcases List.mem_cons.1 he with rfl | hrest
    · exact Nat.lt_succ_self _
    · exact Nat.lt_succ_of_lt (hr.below e hrest)

theorem push_of_closed (h : q.closed = true) : q.push p t = (q, .refused) := by
  simp [push, h]

/-- An open queue takes every task that is not a review. -/
theorem push_production (hopen : q.closed = false) (ht : t.isReview = false) :
    q.push p t = (q.enqueue p t, .queued) := by
  simp [push, hopen, ht]

/-- The queue with a task added, and its coordinate marked if it is a review. -/
def accept (p : Priority) (t : Task) (q : TaskQueue) : TaskQueue :=
  ({ q with
    reviews := if t.isReview then t.coord :: q.reviews else q.reviews } :
      TaskQueue).enqueue p t

@[simp]
theorem tasks_accept : (q.accept p t).tasks = t :: q.tasks :=
  tasks_enqueue

@[simp]
theorem closed_accept : (q.accept p t).closed = q.closed :=
  closed_enqueue

theorem Ticketed.accept (h : Ticketed q) : Ticketed (q.accept p t) :=
  Ticketed.enqueue ⟨h.nodup, h.below⟩

/-- A closed queue hands a task back, a review that waits already is merged, and
every other task is added. -/
theorem push_cases (p : Priority) (t : Task) (q : TaskQueue) :
    (q.closed = true ∧ q.push p t = (q, .refused))
      ∨ (q.closed = false ∧ t.isReview = true ∧ t.coord ∈ q.reviews
        ∧ q.push p t = (q, .merged))
      ∨ (q.closed = false ∧ (t.isReview = true → t.coord ∉ q.reviews)
        ∧ q.push p t = (q.accept p t, .queued)) := by
  cases hclosed : q.closed with
  | true => exact .inl ⟨rfl, push_of_closed hclosed⟩
  | false =>
    refine .inr ?_
    cases hreview : t.isReview with
    | false =>
      refine .inr ⟨rfl, by simp, ?_⟩
      rw [push_production hclosed hreview, accept, hreview]
      rfl
    | true =>
      by_cases hmark : t.coord ∈ q.reviews
      · exact .inl ⟨rfl, rfl, hmark, by simp [push, hclosed, hreview, hmark]⟩
      · refine .inr ⟨rfl, fun _ => hmark, ?_⟩
        simp [push, accept, hclosed, hreview, hmark]

/-- A push leaves the queue as it is, or adds its task. -/
theorem push_preserve {P : TaskQueue → Prop} (hq : P q)
    (haccept : (t.isReview = true → t.coord ∉ q.reviews) →
      P (q.accept p t)) : P (q.push p t).1 := by
  rcases push_cases p t q with ⟨-, h⟩ | ⟨-, -, -, h⟩ | ⟨-, hnew, h⟩
  · rwa [h]
  · rwa [h]
  · rw [h]
    exact haccept hnew

@[simp]
theorem closed_push : (q.push p t).1.closed = q.closed :=
  push_preserve (P := fun r => r.closed = q.closed) rfl fun _ => closed_accept

theorem Ticketed.push (h : Ticketed q) : Ticketed (q.push p t).1 :=
  push_preserve h fun _ => h.accept

/-- What a push leaves in the queue waited before or is the pushed task. -/
theorem mem_of_mem_tasks_push {u : Task} (h : u ∈ (q.push p t).1.tasks) :
    u ∈ q.tasks ∨ u = t := by
  revert h
  refine push_preserve (P := fun r => u ∈ r.tasks → u ∈ q.tasks ∨ u = t)
    .inl fun _ h => ?_
  rw [tasks_accept] at h
  exact (List.mem_cons.1 h).symm

@[simp]
theorem productions_push_review (c : Coord) :
    Task.productions
      (q.push p (.review c)).1.tasks = Task.productions q.tasks :=
  push_preserve
    (P := fun r => Task.productions r.tasks = Task.productions q.tasks) rfl
    fun _ => by simp [Task.isReview]

/-! ## Popping -/

theorem first?_of_pop? (h : q.pop? p = some (t, q')) :
    ∃ e, Entry.first? (q.refresh p).entries = some e ∧ e.task = t
      ∧ q' = (q.refresh p).remove e := by
  unfold pop? at h
  split at h
  · cases h
  · simp only at h
    split at h
    · cases h
    · next e he =>
      cases h
      exact ⟨e, he, rfl, rfl⟩

theorem pop?_eq_some (h : q.pop? p = some (t, q')) :
    ∃ e ∈ (q.refresh p).entries, e.task = t ∧ q' = (q.refresh p).remove e := by
  obtain ⟨e, he, htask, hq'⟩ := first?_of_pop? h
  exact ⟨e, Entry.mem_of_first?_eq_some he, htask, hq'⟩

/-- A pop takes out one task and leaves all others. -/
theorem perm_pop (hq : Ticketed q) (h : q.pop? p = some (t, q')) :
    q.tasks.Perm (t :: q'.tasks) := by
  obtain ⟨e, he, rfl, rfl⟩ := pop?_eq_some h
  have hperm := (perm_cons_filter_ne (hq.refresh (p := p)).nodup he).map
    Entry.task
  rwa [List.map_cons, show (q.refresh p).entries.map Entry.task
    = q.tasks from tasks_refresh]
    at hperm

theorem Ticketed.pop (hq : Ticketed q) (h : q.pop? p = some (t, q')) :
    Ticketed q' := by
  obtain ⟨e, -, -, rfl⟩ := pop?_eq_some h
  have hr := hq.refresh (p := p)
  exact ⟨hr.nodup.sublist (List.filter_sublist.map _),
    fun f hf => hr.below f (List.mem_of_mem_filter hf)⟩

theorem closed_pop (h : q.pop? p = some (t, q')) : q'.closed = q.closed := by
  obtain ⟨e, -, -, rfl⟩ := pop?_eq_some h
  simp [remove]

/-- A task is found unless the queue is closed or empty. -/
theorem pop?_eq_none_iff : q.pop? p = none ↔ q.closed = true
    ∨ q.tasks = [] := by
  unfold pop?
  cases hclosed : q.closed with
  | true => simp
  | false =>
    by_cases hentries : q.entries = []
    · simp [hentries, tasks]
    · have hrefresh : (q.refresh p).entries ≠ [] := by
        intro hnil
        have htasks := tasks_refresh (q := q) (p := p)
        simp [tasks, hnil] at htasks
        exact hentries htasks
      obtain ⟨e, he⟩ :=
        Option.isSome_iff_exists.1 (Entry.first?_isSome hrefresh)
      simp [hentries, he, tasks]

/-! ## Closing -/

theorem ticketed_close : Ticketed q.close.2 :=
  ⟨List.nodup_nil, fun _ h => absurd h List.not_mem_nil⟩

end TaskQueue

namespace Pipeline

variable {p : Priority} {q : TaskQueue}

/-- What a pushed review preserves, following up preserves. -/
theorem followUp_preserve {P : TaskQueue → Prop}
    (hpush : ∀ q c, P q → P (q.push p (.review c)).1) (hq : P q)
    (bs : List Box) : P (followUp p bs q) := by
  unfold followUp
  induction bs.flatMap Box.toList generalizing q with
  | nil => exact hq
  | cons c cs ih => exact ih (hpush q c hq)

/-- Follow-up reviews bring no production and close nothing. -/
theorem followUp_spec (bs : List Box) (hq : q.Ticketed) :
    (followUp p bs q).Ticketed ∧ (followUp p bs q).closed = q.closed
      ∧ Task.productions
          (followUp p bs q).tasks = Task.productions q.tasks := by
  unfold followUp
  induction bs.flatMap Box.toList generalizing q with
  | nil => exact ⟨hq, rfl, rfl⟩
  | cons c cs ih =>
    obtain ⟨hticketed, hclosed, hproductions⟩ :=
      ih (hq.push (p := p) (t := .review c))
    refine ⟨hticketed, ?_, ?_⟩
    · rw [List.foldl_cons, hclosed, TaskQueue.closed_push]
    · rw [List.foldl_cons, hproductions, TaskQueue.productions_push_review]

/-- What follows up is a review. -/
theorem mem_followUp {bs : List Box} {t : Task}
    (h : t ∈ (followUp p bs q).tasks) : t ∈ q.tasks ∨ t.isReview = true := by
  unfold followUp at h
  generalize bs.flatMap Box.toList = cs at h
  induction cs generalizing q with
  | nil => exact .inl h
  | cons c cs ih =>
    rw [List.foldl_cons] at h
    rcases ih h with h | h
    · rcases TaskQueue.mem_of_mem_tasks_push h with h | rfl
      · exact .inl h
      · exact .inr rfl
    · exact .inr h

end Pipeline

end ChunkStream
