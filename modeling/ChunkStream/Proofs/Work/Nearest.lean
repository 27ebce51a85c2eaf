import ChunkStream.Proofs.Work.Turnover

/-!
# Nearest first

The scores in a queue are cached: they are computed again only when the source
of centers has moved to another epoch, and not on every path.  What makes the
cache right is a property of the queue alone, every score is the score by the
centers the queue has, and one of the source, equal epochs mean equal centers.
So whenever the order matters the scores are those by the centers of the moment,
whatever centers there were when the tasks were queued, and the first entry is
the nearest task, of equally near ones the oldest.
-/

namespace ChunkStream

namespace Entry

theorem before_iff {a b : Entry} :
    a.before b = true
      ↔ a.score < b.score ∨ a.score = b.score ∧ a.ticket < b.ticket := by
  simp [before]

theorem not_before_iff {a b : Entry} :
    a.before b = false
      ↔ b.score < a.score ∨ b.score = a.score ∧ b.ticket ≤ a.ticket := by
  rw [← Bool.not_eq_true, before_iff]
  omega

/-- Nothing is before the entry that is served first. -/
theorem not_before_first? {es : List Entry} {e : Entry}
    (h : first? es = some e) : ∀ f ∈ es, f.before e = false := by
  induction es generalizing e with
  | nil => simp [first?] at h
  | cons d rest ih =>
    intro f hf
    rw [not_before_iff]
    cases hrest : first? rest with
    | none =>
      have hnil : rest = [] := by
        by_contra hne
        have hsome := first?_isSome hne
        rw [hrest] at hsome
        cases hsome
      simp only [first?, hrest, Option.some.injEq] at h
      subst hnil h
      rw [List.mem_singleton.1 hf]
      omega
    | some g =>
      have hleast := fun f hf => not_before_iff.1 (ih hrest f hf)
      simp only [first?, hrest] at h
      split at h
      · next hbefore =>
        cases h
        rw [before_iff] at hbefore
        rcases List.mem_cons.1 hf with rfl | hf
        · omega
        · exact hleast f hf
      · next hbefore =>
        cases h
        rw [Bool.not_eq_true, not_before_iff] at hbefore
        rcases List.mem_cons.1 hf with rfl | hf
        · omega
        · have hf := hleast f hf
          omega

end Entry

/-- Of two numbered tasks the first is served before the second: it is nearer to
a center, or as near and older. -/
def Sooner (cs : List Coord) (a b : Nat × Task) : Prop :=
  score cs a.2.coord < score cs b.2.coord
    ∨ score cs a.2.coord = score cs b.2.coord ∧ a.1 < b.1

instance (cs : List Coord) (a b : Nat × Task) : Decidable (Sooner cs a b) :=
  inferInstanceAs (Decidable (_ ∨ _))

namespace TaskQueue

variable {q q' : TaskQueue} {p : Priority} {t : Task}

/-- The waiting tasks, each numbered by its place in the order of arrival. -/
def places (q : TaskQueue) : List (Nat × Task) :=
  q.entries.map fun e => (e.ticket, e.task)

theorem map_snd_places (q : TaskQueue) : q.places.map Prod.snd = q.tasks := by
  simp [places, tasks, Function.comp_def]

theorem Ticketed.lt_of_mem_places (hq : Ticketed q) {a : Nat × Task}
    (ha : a ∈ q.places) : a.1 < q.nextTicket := by
  obtain ⟨e, he, rfl⟩ := List.mem_map.1 ha
  exact hq.below e he

@[simp]
theorem places_refresh : (q.refresh p).places = q.places := by
  unfold refresh
  split
  · rfl
  · simp [places]

@[simp]
theorem nextTicket_refresh : (q.refresh p).nextTicket = q.nextTicket := by
  unfold refresh
  split <;> rfl

@[simp]
theorem places_accept :
    (q.accept p t).places = (q.nextTicket, t) :: q.places := by
  have hplaces (u : TaskQueue) :
      (u.enqueue p t).places = (u.nextTicket, t) :: u.places := by
    have hrefresh := places_refresh (q := u) (p := p)
    simp only [places] at hrefresh
    simp [enqueue, places, hrefresh]
  exact hplaces _

@[simp]
theorem nextTicket_accept :
    (q.accept p t).nextTicket = q.nextTicket + 1 := by
  simp [accept, enqueue]

/-- A pushed task takes the next place, if it takes one. -/
theorem places_push_cases (p : Priority) (t : Task) (q : TaskQueue) :
    (q.push p t).1.places = q.places
        ∧ (q.push p t).1.nextTicket = q.nextTicket
      ∨ (q.push p t).1.places = (q.nextTicket, t) :: q.places
        ∧ (q.push p t).1.nextTicket = q.nextTicket + 1 := by
  rcases push_cases p t q with ⟨-, h⟩ | ⟨-, -, -, h⟩ | ⟨-, -, h⟩
  · exact .inl (by simp [h])
  · exact .inl (by simp [h])
  · exact .inr (by simp [h])

theorem nextTicket_pop (h : q.pop? p = some (t, q')) :
    q'.nextTicket = q.nextTicket := by
  obtain ⟨e, -, -, rfl⟩ := pop?_eq_some h
  simp [remove]

/-- Who stays keeps its place. -/
theorem places_pop_subset (h : q.pop? p = some (t, q')) :
    q'.places ⊆ q.places := by
  obtain ⟨e, -, -, rfl⟩ := pop?_eq_some h
  rw [← places_refresh (q := q) (p := p)]
  exact (List.filter_sublist.map _).subset

/-! ## Scores -/

/-- The scores are those by the centers that the queue has. -/
def Scored (q : TaskQueue) : Prop :=
  ∀ e ∈ q.entries, e.score = score q.centers e.task.coord

/-- The queue has heard of its centers as those of its epoch. -/
def Informed (P : Priority → Prop) (q : TaskQueue) : Prop :=
  ∀ n, q.epoch = some n → P ⟨n, q.centers⟩

theorem scored_empty : Scored empty :=
  fun _ h => absurd h List.not_mem_nil

theorem informed_empty (P : Priority → Prop) : Informed P empty :=
  fun _ h => absurd h (by simp [empty])

theorem Scored.refresh (hq : Scored q) : Scored (q.refresh p) := by
  unfold TaskQueue.refresh
  split
  · exact hq
  · intro e he
    obtain ⟨d, -, rfl⟩ := List.mem_map.1 he
    rfl

theorem Scored.accept (hq : Scored q) : Scored (q.accept p t) := by
  have henqueue {u : TaskQueue} (hu : Scored u) : Scored (u.enqueue p t) := by
    intro e he
    rcases List.mem_cons.1 he with rfl | he
    · rfl
    · exact hu.refresh e he
  exact henqueue hq

theorem Scored.push (hq : Scored q) : Scored (q.push p t).1 :=
  push_preserve hq fun _ => hq.accept

theorem Scored.pop (hq : Scored q) (h : q.pop? p = some (t, q')) :
    Scored q' := by
  obtain ⟨e, -, -, rfl⟩ := pop?_eq_some h
  exact fun f hf => hq.refresh f (List.mem_of_mem_filter hf)

theorem scored_close : Scored q.close.2 :=
  fun _ h => absurd h List.not_mem_nil

section Informed

variable {P Q : Priority → Prop}

theorem Informed.mono (hq : Informed P q) (h : ∀ x, P x → Q x) :
    Informed Q q :=
  fun n hn => h _ (hq n hn)

theorem Informed.refresh (hq : Informed P q) (hp : P p) :
    Informed P (q.refresh p) := by
  unfold TaskQueue.refresh
  split
  · exact hq
  · intro n hn
    rwa [← Option.some.inj hn]

theorem Informed.accept (hq : Informed P q) (hp : P p) :
    Informed P (q.accept p t) :=
  Informed.refresh (q := { q with
    reviews := if t.isReview then t.coord :: q.reviews else q.reviews }) hq hp

theorem Informed.push (hq : Informed P q) (hp : P p) :
    Informed P (q.push p t).1 :=
  push_preserve hq fun _ => hq.accept hp

theorem Informed.pop (hq : Informed P q) (hp : P p)
    (h : q.pop? p = some (t, q')) : Informed P q' := by
  obtain ⟨e, -, -, rfl⟩ := pop?_eq_some h
  exact hq.refresh hp

/-- Of a source whose epoch tells its centers the queue has the right ones as
soon as it has looked. -/
theorem Informed.centers_refresh (hq : Informed P q)
    (hP : ∀ x, P x → x.epoch = p.epoch → x.centers = p.centers) :
    (q.refresh p).centers = p.centers := by
  unfold TaskQueue.refresh
  split
  · next hepoch => exact hP _ (hq p.epoch hepoch) rfl
  · rfl

/-- A pop takes out the task that is sooner than all that stay. -/
theorem sooner_of_pop? (hticketed : Ticketed q) (hscored : Scored q)
    (hq : Informed P q)
    (hP : ∀ x, P x → x.epoch = p.epoch → x.centers = p.centers)
    (h : q.pop? p = some (t, q')) :
    ∃ n, q.places.Perm ((n, t) :: q'.places)
      ∧ ∀ b ∈ q'.places, Sooner p.centers (n, t) b := by
  obtain ⟨e, hfirst, rfl, rfl⟩ := first?_of_pop? h
  have he := Entry.mem_of_first?_eq_some hfirst
  have hscores := hscored.refresh (p := p)
  rw [Scored, hq.centers_refresh hP] at hscores
  refine ⟨e.ticket, ?_, ?_⟩
  · have hperm := (perm_cons_filter_ne
      (hticketed.refresh (p := p)).nodup he).map fun e => (e.ticket, e.task)
    rw [← places_refresh (p := p)]
    exact hperm
  · intro b hb
    obtain ⟨f, hf, rfl⟩ := List.mem_map.1 hb
    obtain ⟨hf, hne⟩ := List.mem_filter.1 hf
    have hne : f.ticket ≠ e.ticket := by simpa using hne
    have hleast := Entry.not_before_iff.1 (Entry.not_before_first? hfirst f hf)
    rw [hscores e he, hscores f hf] at hleast
    simp only [Sooner]
    omega

end Informed

end TaskQueue

namespace RankedQueue

/-- Equal epochs mean equal centers. -/
def Steady (ps : List Priority) : Prop :=
  ∀ p ∈ ps, ∀ p' ∈ ps, p.epoch = p'.epoch → p.centers = p'.centers

/-- The cached scores are right, the queue knows the source by one of the given
priorities, and its tasks are numbered in the order in which they were added. -/
structure Ranking (ps : List Priority) (replies : List QueueReply)
    (r : RankedQueue) : Prop where
  current : r.priority ∈ ps
  scored : r.queue.Scored
  informed : r.queue.Informed (· ∈ ps)
  next : r.queue.nextTicket
    = (replies.filterMap QueueReply.entered?).length
  numbered : ∀ a ∈ r.queue.places,
    (replies.filterMap QueueReply.entered?)[a.1]? = some a.2

namespace Ranking

variable {ps : List Priority} {replies : List QueueReply} {r : RankedQueue}

theorem fresh (p : Priority) : Ranking [p] [] (fresh p) :=
  ⟨List.mem_singleton_self p, TaskQueue.scored_empty,
    TaskQueue.informed_empty _, rfl, fun _ h => absurd h List.not_mem_nil⟩

theorem mono {ps' : List Priority} (hr : Ranking ps replies r)
    (h : ∀ p ∈ ps, p ∈ ps') : Ranking ps' replies r :=
  ⟨h _ hr.current, hr.scored, hr.informed.mono h, hr.next, hr.numbered⟩

/-- An answer that tells of no new task comes with a queue that has the numbers
of before. -/
theorem of_places_subset {q : TaskQueue} (hr : Ranking ps replies r)
    (reply : QueueReply) (hscored : q.Scored)
    (hinformed : q.Informed (· ∈ ps))
    (hticket : q.nextTicket = r.queue.nextTicket)
    (hplaces : q.places ⊆ r.queue.places) (hentered : reply.entered? = none) :
    Ranking ps (replies ++ [reply]) (r.next q) := by
  have hsame : (replies ++ [reply]).filterMap QueueReply.entered?
      = replies.filterMap QueueReply.entered? := by
    simp [hentered]
  refine ⟨hr.current, hscored, hinformed, ?_, ?_⟩
  · rw [hsame, queue_next, hticket]
    exact hr.next
  · rw [hsame]
    exact fun a ha => hr.numbered a (hplaces ha)

/-- The queue may stay as it is. -/
theorem answer (hr : Ranking ps replies r) (reply : QueueReply)
    (hentered : reply.entered? = none) : Ranking ps (replies ++ [reply]) r := by
  have hnext := hr.of_places_subset reply hr.scored hr.informed rfl
    (List.Subset.refl _) hentered
  rwa [next_self] at hnext

theorem push (hr : Ranking ps replies r) (t : Task) :
    Ranking ps (replies ++ [.pushed t (r.push t).1]) (r.push t).2 := by
  rcases push_cases t r with ⟨-, h⟩ | ⟨-, -, -, h⟩ | ⟨-, -, h⟩
  · rw [h]
    exact hr.answer _ rfl
  · rw [h]
    exact hr.answer _ rfl
  · rw [h]
    have hentered : (replies ++ [QueueReply.pushed t .queued]).filterMap
        QueueReply.entered?
          = replies.filterMap QueueReply.entered? ++ [t] := by
      simp [QueueReply.entered?]
    refine ⟨hr.current, hr.scored.accept, hr.informed.accept hr.current, ?_, ?_⟩
    · rw [hentered, queue_next, TaskQueue.nextTicket_accept, hr.next,
        List.length_append, List.length_singleton]
    · rw [hentered, queue_next, TaskQueue.places_accept]
      intro a ha
      rcases List.mem_cons.1 ha with rfl | ha
      · rw [hr.next]
        exact List.getElem?_concat_length
      · have hnumber := hr.numbered a ha
        obtain ⟨hlt, -⟩ := List.getElem?_eq_some_iff.1 hnumber
        rw [List.getElem?_append_left hlt, hnumber]

theorem pop (hr : Ranking ps replies r) :
    Ranking ps (replies ++ [.popped r.pop.1]) r.pop.2 := by
  rcases pop_cases r with ⟨-, h⟩ | ⟨t, q, hpop, h⟩
  · rw [h]
    exact hr.answer _ rfl
  · rw [h]
    exact hr.of_places_subset (.popped (some t)) (hr.scored.pop hpop)
      (hr.informed.pop hr.current hpop) (TaskQueue.nextTicket_pop hpop)
      (TaskQueue.places_pop_subset hpop) rfl

theorem close (hr : Ranking ps replies r) :
    Ranking ps (replies ++ [.closed r.close.1]) r.close.2 :=
  hr.of_places_subset (q := r.queue.close.2) (.closed r.close.1)
    TaskQueue.scored_close
    hr.informed rfl (List.nil_subset _) rfl

theorem run (p : Priority) (acts : List QueueAct) :
    Ranking (p :: acts.filterMap QueueAct.priority?)
      ((RankedQueue.fresh p).run acts).1
      ((RankedQueue.fresh p).run acts).2 := by
  induction acts using List.reverseRecOn with
  | nil => exact fresh p
  | append_singleton acts a ih =>
    have hmono : Ranking (p :: (acts ++ [a]).filterMap QueueAct.priority?)
        ((RankedQueue.fresh p).run acts).1
        ((RankedQueue.fresh p).run acts).2 :=
      ih.mono fun x hx => by
        rw [List.filterMap_append]
        exact List.mem_append_left _ hx
    rw [run_concat]
    cases a with
    | push t => exact hmono.push t
    | pop => exact hmono.pop
    | recenter p' =>
      have hsame := hmono.answer .recentered rfl
      refine ⟨?_, hsame.scored, hsame.informed, hsame.next, hsame.numbered⟩
      simp [QueueAct.priority?, act, recenter]
    | close => exact hmono.close

end Ranking

/-- Along every history of a queue whose source has one list of centers in an
epoch, the waiting tasks are numbered in the order in which they were added, and
a pop serves the task whose pair of score by the centers of the moment and
number is least, if any waits. -/
theorem nearest_first (p : Priority) (acts : List QueueAct)
    (hsteady : Steady (p :: acts.filterMap QueueAct.priority?)) :
    let entered := ((fresh p).run acts).1.filterMap QueueReply.entered?
    let r := ((fresh p).run acts).2
    (∀ a ∈ r.queue.places, entered[a.1]? = some a.2)
      ∧ r.queue.places.map Prod.snd = r.queue.tasks
      ∧ (r.pop.1 = none ↔ r.queue.tasks = [])
      ∧ ∀ t, r.pop.1 = some t →
        ∃ n, r.queue.places.Perm ((n, t) :: r.pop.2.queue.places)
          ∧ ∀ b ∈ r.pop.2.queue.places,
            Sooner r.priority.centers (n, t) b := by
  intro entered r
  have hr : Ranking _ _ r := Ranking.run p acts
  have hbalanced : Balanced _ r := Balanced.run p acts
  refine ⟨hr.numbered, TaskQueue.map_snd_places _, hbalanced.pop_eq_none_iff,
    ?_⟩
  intro t hserved
  rcases pop_cases r with ⟨-, h⟩ | ⟨u, q, hpop, h⟩
  · rw [h] at hserved
    cases hserved
  · rw [h] at hserved ⊢
    obtain rfl : u = t := Option.some.inj hserved
    exact TaskQueue.sooner_of_pop? hbalanced.ticketed hr.scored hr.informed
      (fun x hx => hsteady x hx _ hr.current) hpop

/-- The source moves while two tasks wait, and the task that was the farther one
is served. -/
theorem nearest_first_of_moving_centers :
    let acts : List QueueAct :=
      [.push (.generate .origin), .push (.generate ⟨10, 0, 0⟩),
        .recenter ⟨1, [⟨10, 0, 0⟩]⟩]
    let r := ((fresh ⟨0, [.origin]⟩).run acts).2
    r.pop.1 = some (.generate ⟨10, 0, 0⟩)
      ∧ ∃ n, r.queue.places.Perm
          ((n, .generate ⟨10, 0, 0⟩) :: r.pop.2.queue.places)
        ∧ ∀ b ∈ r.pop.2.queue.places,
          Sooner [⟨10, 0, 0⟩] (n, .generate ⟨10, 0, 0⟩) b := by
  intro acts r
  have hsteady : Steady (⟨0, [.origin]⟩ :: acts.filterMap
      QueueAct.priority?) := by
    unfold Steady
    decide
  have hserved : r.pop.1 = some (.generate ⟨10, 0, 0⟩) := by decide +kernel
  exact ⟨hserved, (nearest_first ⟨0, [.origin]⟩ acts hsteady).2.2.2 _ hserved⟩

end RankedQueue

end ChunkStream
