import ChunkStream.Proofs.Work.Nearest

/-!
# What closing gives back

Closing sorts the waiting tasks by their cached scores, where pops pick the
first one each time, with a look at the centers before and a mark taken away
after.  The tickets are distinct, so entries that are sorted are sorted in one
way only, and the entry that a pop picks is the head of the sorted ones.  As long
as the queue stands at the epoch of its source no pop scores again, and closing
gives back what pops would have served, in their order.
-/

namespace ChunkStream

namespace Entry

variable {a b c e : Entry} {es : List Entry}

theorem le_iff :
    a.le b = true
      ↔ a.score < b.score ∨ a.score = b.score ∧ a.ticket ≤ b.ticket := by
  rw [le, Bool.not_eq_true', not_before_iff]

theorem le_trans (a b c : Entry) (h : a.le b = true) (h' : b.le c = true) :
    a.le c = true := by
  rw [le_iff] at h h' ⊢
  omega

theorem le_total (a b : Entry) : (a.le b || b.le a) = true := by
  rw [Bool.or_eq_true, le_iff, le_iff]
  omega

/-- The order of a heap that gives out its greatest entry: a lower score is
greater, and of equal scores the older one. -/
def heapOrder (a b : Entry) : Ordering :=
  (compare b.score a.score).then (compare b.ticket a.ticket)

theorem isLE_heapOrder_iff :
    (a.heapOrder b).isLE = true ↔ b.le a = true := by
  rw [le_iff, heapOrder, Ordering.isLE_then_iff_or, Nat.compare_eq_lt,
    Nat.compare_eq_eq, Nat.isLE_compare]

/-- Entries with distinct tickets are sorted in one way only. -/
theorem eq_mergeSort_of_perm {sorted : List Entry}
    (hnodup : (es.map (·.ticket)).Nodup) (hperm : sorted.Perm es)
    (hsorted : sorted.Pairwise fun a b => a.le b = true) :
    sorted = es.mergeSort le := by
  have hsort := List.mergeSort_perm es le
  refine List.Perm.eq_of_pairwise (fun a b ha hb hab hba => ?_) hsorted
    (List.pairwise_mergeSort le_trans le_total es) (hperm.trans hsort.symm)
  have hticket : a.ticket = b.ticket := by
    rw [le_iff] at hab hba
    omega
  exact List.inj_on_of_nodup_map hnodup (hperm.mem_iff.1 ha)
    (hsort.mem_iff.1 hb) hticket

/-- The entry that is served first is the head of the sorted ones. -/
theorem mergeSort_of_first? (hnodup : (es.map (·.ticket)).Nodup)
    (h : first? es = some e) :
    es.mergeSort le
      = e :: (es.filter fun f => f.ticket ≠ e.ticket).mergeSort le := by
  symm
  apply eq_mergeSort_of_perm hnodup
  · have hrest := perm_cons_filter_ne hnodup (mem_of_first?_eq_some h)
    exact ((List.mergeSort_perm _ le).cons e).trans hrest.symm
  · refine List.pairwise_cons.2
      ⟨fun f hf => ?_, List.pairwise_mergeSort le_trans le_total _⟩
    have hmem := List.mem_of_mem_filter ((List.mergeSort_perm _ le).mem_iff.1 hf)
    rw [le, not_before_first? h f hmem]
    rfl

end Entry

namespace TaskQueue

variable {q q' : TaskQueue} {p : Priority} {t : Task}

theorem refresh_of_epoch (h : q.epoch = some p.epoch) : q.refresh p = q :=
  if_pos h

/-- At the epoch of the source a pop takes the head of what closing would give
back, and leaves the rest. -/
theorem close_of_pop? (hq : Ticketed q) (hepoch : q.epoch = some p.epoch)
    (h : q.pop? p = some (t, q')) :
    q.close.1 = t :: q'.close.1 ∧ q'.epoch = q.epoch := by
  obtain ⟨e, hfirst, rfl, rfl⟩ := first?_of_pop? h
  rw [refresh_of_epoch hepoch] at hfirst ⊢
  refine ⟨?_, rfl⟩
  show (q.entries.mergeSort Entry.le).map Entry.task = _
  rw [Entry.mergeSort_of_first? hq.nodup hfirst]
  rfl

theorem close_of_tasks_eq_nil (h : q.tasks = []) : q.close.1 = [] :=
  List.perm_nil.1 (h ▸ perm_close)

end TaskQueue

namespace RankedQueue

variable {r : RankedQueue} {n : Nat}

/-- The queue stands at the epoch of its source, with distinct tickets and
nothing waiting behind closed doors. -/
structure Current (r : RankedQueue) : Prop where
  epoch : r.queue.epoch = some r.priority.epoch
  ticketed : r.queue.Ticketed
  halted : r.queue.closed = true → r.queue.tasks = []

theorem Current.pop_cases (hr : Current r) :
    (r.pop = (none, r) ∧ r.close.1 = [])
      ∨ ∃ t next, r.pop = (some t, next) ∧ r.close.1 = t :: next.close.1
        ∧ Current next := by
  rcases RankedQueue.pop_cases r with ⟨hnone, h⟩ | ⟨t, q, hpop, h⟩
  · exact .inl ⟨h, TaskQueue.close_of_tasks_eq_nil (hnone.elim hr.halted id)⟩
  · obtain ⟨hclose, hepoch⟩ :=
      TaskQueue.close_of_pop? hr.ticketed hr.epoch hpop
    have hperm := TaskQueue.perm_pop hr.ticketed hpop
    refine .inr ⟨t, r.next q, h, hclose, hepoch.trans hr.epoch,
      hr.ticketed.pop hpop, fun hclosed => ?_⟩
    have hnone := hr.halted ((TaskQueue.closed_pop hpop).symm.trans hclosed)
    rw [hnone] at hperm
    cases hperm.nil_eq

/-- A number of pops serves that many of the tasks that closing would give back,
and the next pop serves the one after them. -/
theorem Current.popMany_eq (hr : Current r) (n : Nat) :
    (r.popMany n).1 = r.close.1.take n
      ∧ (r.popMany n).2.pop.1 = r.close.1[n]? := by
  induction n generalizing r with
  | zero =>
    refine ⟨rfl, ?_⟩
    show r.pop.1 = _
    rcases hr.pop_cases with ⟨hpop, hclose⟩ | ⟨t, next, hpop, hclose, -⟩
    · rw [hpop, hclose]
      rfl
    · rw [hpop, hclose]
      rfl
  | succ n ih =>
    rcases hr.pop_cases with ⟨hpop, hclose⟩ | ⟨t, next, hpop, hclose, hnext⟩
    · simp [popMany, hpop, hclose]
    · obtain ⟨hserved, hafter⟩ := ih hnext
      simp [popMany, hpop, hclose, hserved, hafter]

/-- Closing gives back the waiting tasks in serving order.  In every state that a
queue comes to with its source at the epoch it has heard of, the tasks that
closing gives back are those that pops would serve one after the other until
nothing is left; and they are the entries in any arrangement that goes up in the
order of the heap, read backwards. -/
theorem close_in_serving_order (p : Priority) (acts : List QueueAct)
    (hepoch : ((fresh p).run acts).2.queue.epoch
      = some ((fresh p).run acts).2.priority.epoch) :
    let r := ((fresh p).run acts).2
    r.close.1 = r.drain.1
      ∧ r.drain.2.pop.1 = none
      ∧ (∀ n, (r.popMany n).1 = r.close.1.take n)
      ∧ ∀ ascending : List Entry, ascending.Perm r.queue.entries →
        ascending.Pairwise (fun a b => (a.heapOrder b).isLE = true) →
        ascending.reverse.map (·.task) = r.close.1 := by
  intro r
  have hbalanced : Balanced _ r := Balanced.run p acts
  have hr : Current r := ⟨hepoch, hbalanced.ticketed, hbalanced.halted⟩
  have hlength : r.close.1.length = r.queue.size := by
    rw [show r.close.1 = r.queue.close.1 from rfl,
      TaskQueue.perm_close.length_eq]
    exact List.length_map _
  obtain ⟨hall, hnone⟩ := hr.popMany_eq r.queue.size
  refine ⟨?_, ?_, fun n => (hr.popMany_eq n).1, fun ascending hperm hup => ?_⟩
  · rw [← hlength, List.take_length] at hall
    rw [drain, ← hlength]
    exact hall.symm
  · rw [List.getElem?_eq_none (Nat.le_of_eq hlength)] at hnone
    exact hnone
  · have hdown : ascending.reverse.Pairwise fun a b => a.le b = true := by
      rw [List.pairwise_reverse]
      exact hup.imp Entry.isLE_heapOrder_iff.1
    rw [Entry.eq_mergeSort_of_perm hbalanced.ticketed.nodup
      (ascending.reverse_perm.trans hperm) hdown]
    rfl

/-- Two tasks are as near to the moved center as each other and are given back by
age, a review among those that were scored again. -/
theorem close_in_serving_order_of_moving_centers :
    let acts : List QueueAct :=
      [.push (.review .origin), .push (.generate ⟨10, 0, 0⟩),
        .recenter ⟨1, [⟨10, 0, 0⟩]⟩, .push (.load ⟨11, 0, 0⟩),
        .push (.generate ⟨9, 0, 0⟩)]
    let r := ((fresh ⟨0, [.origin]⟩).run acts).2
    r.queue.epoch = some r.priority.epoch
      ∧ r.close.1 = [.generate ⟨10, 0, 0⟩, .load ⟨11, 0, 0⟩,
        .generate ⟨9, 0, 0⟩, .review .origin] := by
  intro acts r
  have hepoch : r.queue.epoch = some r.priority.epoch := by decide +kernel
  have hdrain : r.drain.1 = [.generate ⟨10, 0, 0⟩, .load ⟨11, 0, 0⟩,
      .generate ⟨9, 0, 0⟩, .review .origin] := by decide +kernel
  exact ⟨hepoch,
    (close_in_serving_order ⟨0, [.origin]⟩ acts hepoch).1.trans hdrain⟩

end RankedQueue

end ChunkStream
