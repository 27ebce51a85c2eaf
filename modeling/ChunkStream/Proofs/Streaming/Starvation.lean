import ChunkStream.Proofs.Streaming.Finishing
import ChunkStream.Proofs.Streaming.Quiescence
import ChunkStream.Proofs.Streaming.Ranking

/-!
# Waiting behind a held chunk

A review that finds its chunk held asks for another one at once, and the worker
always takes the nearest task.  So the review of a held chunk comes up again and
again, and whatever is farther from the centers than that chunk waits for as
long as it is held: the worker never comes to it.

Nothing else keeps a task waiting.  A task that a production brings is lighter
than the production, and a review brings none unless its chunk is held, so what
stands before a task becomes less with every step, unless it stands behind a
held chunk.
-/

namespace ChunkStream

/-! ## What stands before a place -/

/-- How many steps of the worker the tasks at some places lead to, of those that
are served before a given one. -/
def weightBefore (cs : List Coord) (b : Nat × Task) : List (Nat × Task) → Nat
  | [] => 0
  | a :: as =>
      if Sooner cs a b then a.2.weight + weightBefore cs b as
      else weightBefore cs b as

section WeightBefore

variable {cs : List Coord} {a b : Nat × Task} {as bs : List (Nat × Task)}

theorem weightBefore_cons_of_sooner (h : Sooner cs a b) :
    weightBefore cs b (a :: as) = a.2.weight + weightBefore cs b as :=
  if_pos h

theorem weightBefore_cons_of_not_sooner (h : ¬ Sooner cs a b) :
    weightBefore cs b (a :: as) = weightBefore cs b as :=
  if_neg h

theorem weightBefore_append :
    weightBefore cs b (as ++ bs)
      = weightBefore cs b as + weightBefore cs b bs := by
  induction as with
  | nil => exact (Nat.zero_add _).symm
  | cons a as ih =>
    by_cases h : Sooner cs a b
    · rw [List.cons_append, weightBefore_cons_of_sooner h,
        weightBefore_cons_of_sooner h, ih, Nat.add_assoc]
    · rw [List.cons_append, weightBefore_cons_of_not_sooner h,
        weightBefore_cons_of_not_sooner h, ih]

theorem weightBefore_perm (h : as.Perm bs) :
    weightBefore cs b as = weightBefore cs b bs := by
  induction h with
  | nil => rfl
  | cons a _ ih => simp only [weightBefore, ih]
  | swap a a' as =>
    simp only [weightBefore]
    split <;> split <;> omega
  | trans _ _ ih ih' => exact ih.trans ih'

theorem weightBefore_le :
    weightBefore cs b as
      ≤ as.length + 9 * (Task.productions (as.map Prod.snd)).length := by
  induction as with
  | nil => exact Nat.zero_le _
  | cons a as ih =>
    have hweight : weightBefore cs b (a :: as)
        ≤ a.2.weight + weightBefore cs b as := by
      by_cases h : Sooner cs a b
      · rw [weightBefore_cons_of_sooner h]
      · rw [weightBefore_cons_of_not_sooner h]
        exact Nat.le_add_left _ _
    rw [List.map_cons, Task.productions_cons, List.length_cons]
    cases hreview : a.2.isReview <;>
      simp [Task.weight, hreview] at hweight ⊢ <;> omega

theorem weightBefore_le_length (h : ∀ a ∈ as, a.2.isReview = true) :
    weightBefore cs b as ≤ as.length := by
  have hnone : Task.productions (as.map Prod.snd) = [] := by
    rw [List.eq_nil_iff_forall_not_mem]
    intro c hc
    obtain ⟨t, ht, hproduction, -⟩ := Task.mem_productions.1 hc
    obtain ⟨a, ha, rfl⟩ := List.mem_map.1 ht
    rw [h a ha] at hproduction
    cases hproduction
  have hle : weightBefore cs b as ≤ _ := weightBefore_le
  rwa [hnone] at hle

theorem weightBefore_eq_zero (h : ∀ a ∈ as, ¬ Sooner cs a b) :
    weightBefore cs b as = 0 := by
  induction as with
  | nil => rfl
  | cons a as ih =>
    rw [weightBefore_cons_of_not_sooner (h a List.mem_cons_self)]
    exact ih fun a ha => h a (List.mem_cons_of_mem _ ha)

end WeightBefore

/-- What stands before a place is lighter than the queue. -/
theorem TaskQueue.weightBefore_lt_weight {q : TaskQueue} (cs : List Coord)
    {b : Nat × Task} (hb : b ∈ q.places) :
    weightBefore cs b q.places < q.weight := by
  have hperm := List.perm_cons_erase hb
  have hself : ¬ Sooner cs b b := by
    simp [Sooner]
  have htasks := hperm.map Prod.snd
  rw [map_snd_places, List.map_cons] at htasks
  have hlength := htasks.length_eq
  rw [List.length_cons, List.length_map] at hlength
  have hproductions : (Task.productions
      ((q.places.erase b).map Prod.snd)).length
        ≤ (Task.productions q.tasks).length := by
    rw [(Task.perm_productions htasks).length_eq, Task.productions_cons]
    split
    · exact Nat.le_refl _
    · exact Nat.le_succ _
  calc weightBefore cs b q.places
      = weightBefore cs b (q.places.erase b) := by
        rw [weightBefore_perm hperm, weightBefore_cons_of_not_sooner hself]
    _ ≤ (q.places.erase b).length + 9 * (Task.productions
          ((q.places.erase b).map Prod.snd)).length := weightBefore_le
    _ < q.weight := by
        unfold TaskQueue.weight
        omega

/-- Following up adds no more places than reviews were asked for, all of them
last. -/
theorem Pipeline.places_followUp {p : Priority} (bs : List Box)
    (q : TaskQueue) :
    ∃ new, (followUp p bs q).places = new ++ q.places
      ∧ new.length ≤ (bs.flatMap Box.toList).length
      ∧ ∀ a ∈ new, q.nextTicket ≤ a.1
        ∧ ∃ c ∈ bs.flatMap Box.toList, a.2 = .review c := by
  unfold followUp
  induction bs.flatMap Box.toList generalizing q with
  | nil => exact ⟨[], rfl, Nat.le_refl _, fun _ h => absurd h List.not_mem_nil⟩
  | cons c cs ih =>
    obtain ⟨new, hplaces, hlength, hnew⟩ := ih (q.push p (.review c)).1
    rw [List.foldl_cons, List.length_cons]
    rcases TaskQueue.places_push_cases p (.review c) q with
      ⟨hpush, hnext⟩ | ⟨hpush, hnext⟩
    · refine ⟨new, by rw [hplaces, hpush], by omega, ?_⟩
      intro a ha
      obtain ⟨hticket, d, hd, htask⟩ := hnew a ha
      exact ⟨hnext ▸ hticket, d, List.mem_cons_of_mem c hd, htask⟩
    · refine ⟨new ++ [(q.nextTicket, .review c)], ?_, ?_, ?_⟩
      · rw [hplaces, hpush, List.append_assoc]
        rfl
      · rw [List.length_append, List.length_singleton]
        omega
      · intro a ha
        rcases List.mem_append.1 ha with ha | ha
        · obtain ⟨hticket, d, hd, htask⟩ := hnew a ha
          exact ⟨by omega, d, List.mem_cons_of_mem c hd, htask⟩
        · obtain rfl := List.mem_singleton.1 ha
          exact ⟨Nat.le_refl _, c, List.mem_cons_self, rfl⟩

variable {σ : Type} {setup : Setup σ}

/-! ## Held chunks -/

namespace StreamState

variable {s t : StreamState σ} {c : Coord}

/-- The chunk is unfinished, and somebody holds it. -/
def isHeld (s : StreamState σ) (c : Coord) : Bool :=
  s.isUnfinished c && (s.chunk? c).any (·.locked)

/-- A chunk is held as long as nobody touches it and no neighbour goes. -/
theorem isHeld_of_le (hchunk : t.chunk? c = s.chunk? c)
    (hresident : ∀ n, s.isResident n = true → t.isResident n = true)
    (h : s.isHeld c = true) : t.isHeld c = true := by
  simp only [isHeld, isUnfinished, Bool.and_eq_true, isSurrounded_iff] at h ⊢
  rw [hchunk]
  exact ⟨⟨h.1.1, fun n hn => hresident n (h.1.2 n hn)⟩, h.2⟩

theorem isFinishable_of_isHeld (h : s.isHeld c = true) :
    s.isFinishable c = false := by
  unfold isHeld at h
  rw [Bool.and_eq_true] at h
  unfold isFinishable
  cases hchunk : s.chunk? c with
  | none => simp
  | some chunk =>
    rw [hchunk, Option.any_some] at h
    simp [h.2]

end StreamState

namespace Production

variable {s : StreamState σ} {c : Coord}

theorem reviews_finishChunk (setup : Setup σ) (c : Coord) (chunk : Chunk)
    (s : StreamState σ) : (finishChunk setup c chunk s).reviews = [] := by
  unfold finishChunk
  rcases setup.generator.finish chunk with ⟨next, completion | cause⟩
  · cases completion <;> rfl
  · rfl

/-- A review asks for another one just when its chunk is held. -/
theorem reviews_review (setup : Setup σ) (c : Coord) (s : StreamState σ) :
    (review setup c s).reviews = if s.isHeld c then [⟨c, c⟩] else [] := by
  unfold review StreamState.isHeld StreamState.isUnfinished
  cases hchunk : s.chunk? c with
  | none => simp
  | some chunk =>
    cases hcomplete : chunk.isComplete with
    | true => simp [hcomplete, concludeReview]
    | false =>
      cases hsurrounded : s.isSurrounded c with
      | false => simp [hcomplete]
      | true =>
        cases hlocked : chunk.locked with
        | true => simp [hcomplete, hlocked]
        | false => simp [hcomplete, hlocked, reviews_finishChunk]

/-- A production asks for few reviews. -/
theorem light_produce (setup : Setup σ) (cancelled : Bool) (t : Task)
    (s : StreamState σ) :
    ((produce setup cancelled t s).reviews.flatMap Box.toList).length ≤ 9 := by
  rcases produce_cases setup cancelled t s with
    ⟨u, failure, -, -, h⟩ | ⟨u, chunk, -, -, -, h⟩
  · rw [h]
    exact Nat.zero_le _
  · rw [h, List.flatMap_singleton, Box.length_toList]
    exact Box.count_neighborhood_le

/-- A production touches no chunk that is resident. -/
theorem chunk?_produce (setup : Setup σ) (cancelled : Bool) (t : Task)
    (hc : s.isResident c = true) :
    (produce setup cancelled t s).state.chunk? c = s.chunk? c := by
  rcases produce_cases setup cancelled t s with
    ⟨u, failure, hnote, -, h⟩ | ⟨u, chunk, hnote, -, -, h⟩
  · rw [h]
    exact StreamState.chunk?_congr hnote.sameStock.near c
  · rw [h, StreamState.chunk?_congr (near_announceIfComplete t.coord _)]
    have hsame := StreamState.chunk?_congr hnote.sameStock.near c
    rw [← hsame]
    rw [← StreamState.isResident_congr hnote.sameStock.near] at hc
    unfold settleChunk StreamState.install
    split
    · rfl
    · next hfree =>
      have hne : t.coord ≠ c := by
        rintro rfl
        exact hfree hc
      simp only [StreamState.chunk?, StreamState.resident?, unclaim,
        StreamState.record, Table.get?_insert, hne, if_false]

theorem isResident_produce (setup : Setup σ) (cancelled : Bool) (t : Task)
    (hc : s.isResident c = true) :
    (produce setup cancelled t s).state.isResident c = true := by
  rw [StreamState.isResident_eq, chunk?_produce setup cancelled t hc,
    ← StreamState.isResident_eq, hc]

/-- No task puts an end to a chunk's being held. -/
theorem isHeld_run (setup : Setup σ) (cancelled : Bool) (t : Task)
    (h : s.isHeld c = true) :
    (run setup cancelled t s).state.isHeld c = true := by
  have hresident : s.isResident c = true := by
    have hunfinished := (Bool.and_eq_true_iff.1 h).1
    exact (StreamState.isUnfinished_iff.1 hunfinished).2 c
      Box.contains_neighborhood_self
  cases hreview : t.isReview with
  | false =>
    rw [run_production cancelled hreview]
    exact StreamState.isHeld_of_le (chunk?_produce setup cancelled t hresident)
      (fun n hn => isResident_produce setup cancelled t hn) h
  | true =>
    obtain ⟨d, rfl⟩ := Task.exists_review hreview
    refine StreamState.isHeld_of_le ?_
      (fun n hn => ((SamePlaces.review setup d s).resident n).trans hn) h
    show (review setup d s).state.chunk? c = s.chunk? c
    cases hfinishable : s.isFinishable d with
    | false =>
      exact StreamState.chunk?_congr
        (review_of_not_finishable setup hfinishable).1 c
    | true =>
      have hne : c ≠ d := by
        rintro rfl
        rw [StreamState.isFinishable_of_isHeld h] at hfinishable
        cases hfinishable
      obtain ⟨chunk, -, -, hfinish⟩ := review_of_finishable setup hfinishable
      rw [hfinish, StreamState.chunk?_congr (near_finishChunk setup d chunk s),
        StreamState.chunk?_adjustChunk, if_neg hne]

end Production

/-! ## A step of the worker -/

namespace Provider

variable {p q : Provider σ} {t : Task} {n : Nat}

/-- The task that the worker takes next. -/
def next? (p : Provider σ) : Option Task :=
  (p.pipeline.queue.pop? (Production.priority p.state)).map (·.1)

/-- The task waits, and so does the review of a held chunk that is nearer to a
center. -/
def Starves (p : Provider σ) (t : Task) : Prop :=
  t ∈ p.pipeline.queue.tasks
    ∧ ∃ c, .review c ∈ p.pipeline.queue.tasks ∧ p.state.isHeld c = true
      ∧ score p.state.centers c < score p.state.centers t.coord

theorem centers_work (h : p.work? setup = some q) :
    q.state.centers = p.state.centers := by
  obtain ⟨t, queue, u, completed, failed, -, hnote, rfl⟩ := work?_spec h
  have hsame := (Production.priority_of_annotated hnote).trans
    (Production.priority_run setup p.pipeline.cancelled t p.state)
  exact congrArg Priority.centers hsame

/-- What a step of the worker is, in terms of places: the soonest task goes, and
the reviews that it asked for come last. -/
theorem places_work (hp : Ranked p) (hclaims : Claims p)
    (h : p.work? setup = some q) :
    ∃ n t rest new, p.next? = some t
      ∧ p.pipeline.queue.places.Perm ((n, t) :: rest)
      ∧ (∀ b ∈ rest, Sooner p.state.centers (n, t) b)
      ∧ q.pipeline.queue.places = new ++ rest
      ∧ new.length ≤ ((Production.run setup p.pipeline.cancelled t
          p.state).reviews.flatMap Box.toList).length
      ∧ (∀ a ∈ new, p.pipeline.queue.nextTicket ≤ a.1
        ∧ ∃ c ∈ (Production.run setup p.pipeline.cancelled t
            p.state).reviews.flatMap Box.toList, a.2 = .review c) := by
  obtain ⟨t, queue, u, completed, failed, hpop, hnote, rfl⟩ := work?_spec h
  obtain ⟨n, hperm, hsooner⟩ := TaskQueue.sooner_of_pop? hclaims.ticketed
    hp.scored hp.informed (fun _ hx => hx.2) hpop
  obtain ⟨new, hplaces, hlength, hnew⟩ := Pipeline.places_followUp
    (p := Production.priority
      (Production.run setup p.pipeline.cancelled t p.state).state)
    (Production.run setup p.pipeline.cancelled t p.state).reviews queue
  refine ⟨n, t, queue.places, new, ?_, hperm, hsooner, hplaces, hlength, ?_⟩
  · rw [next?, hpop]
    rfl
  · rwa [TaskQueue.nextTicket_pop hpop] at hnew

theorem mem_tasks_of_mem_places {q : TaskQueue} (h : (n, t) ∈ q.places) :
    t ∈ q.tasks := by
  rw [← TaskQueue.map_snd_places]
  exact List.mem_map_of_mem h

/-- What a task brings is lighter than the task itself, as far as it stands
before a place that the review of a held chunk does not keep waiting. -/
theorem weightBefore_brought {s : StreamState σ} {cancelled : Bool}
    {cs : List Coord} {u : Task} {new : List (Nat × Task)} {ticket : Nat}
    (hlength : new.length ≤ ((Production.run setup cancelled u
      s).reviews.flatMap Box.toList).length)
    (hnew : ∀ a ∈ new, ticket ≤ a.1
      ∧ ∃ c ∈ (Production.run setup cancelled u s).reviews.flatMap Box.toList,
        a.2 = .review c)
    (hplace : n < ticket)
    (hfar : ∀ c, u = .review c → s.isHeld c = true →
      score cs t.coord ≤ score cs c) :
    weightBefore cs (n, t) new < u.weight := by
  cases hreview : u.isReview with
  | false =>
    rw [Production.run_production _ hreview] at hlength hnew
    have hreviews : ∀ a ∈ new, a.2.isReview = true := by
      intro a ha
      obtain ⟨-, c, -, htask⟩ := hnew a ha
      rw [htask]
      rfl
    calc weightBefore cs (n, t) new
        ≤ new.length := weightBefore_le_length hreviews
      _ ≤ 9 := hlength.trans (Production.light_produce setup _ u s)
      _ < u.weight := by simp [Task.weight, hreview]
  | true =>
    obtain ⟨c, rfl⟩ := Task.exists_review hreview
    have hreviews : (Production.run setup cancelled (.review c) s).reviews
        = if s.isHeld c then [⟨c, c⟩] else [] :=
      Production.reviews_review setup c s
    rw [hreviews] at hnew
    refine Nat.lt_of_le_of_lt (Nat.le_of_eq ?_) Nat.one_pos
    refine weightBefore_eq_zero fun a ha => ?_
    obtain ⟨hticket, d, hd, htask⟩ := hnew a ha
    cases hheld : s.isHeld c with
    | false =>
      rw [hheld] at hd
      cases hd
    | true =>
      -- the new review is of the same chunk, and it is not nearer
      rw [hheld, if_pos rfl, List.flatMap_singleton] at hd
      obtain rfl := Box.eq_of_contains_singleton (Box.mem_toList_iff.1 hd)
      have hnotNearer := hfar d rfl hheld
      have hcoord : a.2.coord = d := by
        rw [htask]
        rfl
      simp only [Sooner, hcoord]
      omega

/-- Before a task that is neither next nor starved there is less after a step
than there was. -/
theorem weightBefore_work (hp : Ranked p) (hclaims : Claims p)
    (h : p.work? setup = some q) (hplace : (n, t) ∈ p.pipeline.queue.places)
    (hnext : p.next? ≠ some t) (hstarves : ¬ p.Starves t) :
    (n, t) ∈ q.pipeline.queue.places
      ∧ weightBefore q.state.centers (n, t) q.pipeline.queue.places
        < weightBefore p.state.centers (n, t) p.pipeline.queue.places := by
  obtain ⟨m, u, rest, new, hu, hperm, hsooner, hplaces, hlength, hnew⟩ :=
    places_work hp hclaims h
  have hrest : (n, t) ∈ rest := by
    rcases List.mem_cons.1 (hperm.mem_iff.1 hplace) with heq | hrest
    · rw [(Prod.mk.inj heq).2] at hnext
      exact absurd hu hnext
    · exact hrest
  have hlight : weightBefore p.state.centers (n, t) new < u.weight := by
    refine weightBefore_brought hlength hnew
      (hclaims.ticketed.lt_of_mem_places hplace) fun c hc hheld => ?_
    by_contra hnear
    have hwaits : u ∈ p.pipeline.queue.tasks :=
      mem_tasks_of_mem_places (hperm.mem_iff.2 List.mem_cons_self)
    exact hstarves ⟨mem_tasks_of_mem_places hplace, c, hc ▸ hwaits, hheld,
      Nat.lt_of_not_le hnear⟩
  refine ⟨hplaces ▸ List.mem_append_right new hrest, ?_⟩
  rw [centers_work h, hplaces, weightBefore_append, weightBefore_perm hperm,
    weightBefore_cons_of_sooner (hsooner _ hrest)]
  exact Nat.add_lt_add_right hlight _

/-- A starved task is not next, and it is starved after the step too. -/
theorem Starves.work (hs : p.Starves t) (ht : t.isReview = false)
    (hp : Ranked p) (hclaims : Claims p) (h : p.work? setup = some q) :
    p.next? ≠ some t ∧ q.Starves t := by
  obtain ⟨hwaits, c, hreview, hheld, hnearer⟩ := hs
  have hopen := hclaims.opened_of_work? h
  have hcenters := centers_work h
  obtain ⟨u, queue, v, completed, failed, hpop, hnote, rfl⟩ := work?_spec h
  obtain ⟨n, hperm, hsooner⟩ := TaskQueue.sooner_of_pop? hclaims.ticketed
    hp.scored hp.informed (fun _ hx => hx.2) hpop
  have hne : u ≠ t := by
    rintro rfl
    rw [← TaskQueue.map_snd_places] at hreview
    obtain ⟨a, ha, htask⟩ := List.mem_map.1 hreview
    rcases List.mem_cons.1 (hperm.mem_iff.1 ha) with rfl | hrest
    · obtain rfl : u = .review c := htask
      cases ht
    · have hsoon := hsooner a hrest
      have hcoord : a.2.coord = c := by
        rw [htask]
        rfl
      simp only [Sooner, hcoord, Production.priority] at hsoon
      omega
  obtain ⟨-, hkept, hasked⟩ := Pipeline.marked_followUp
    (p := Production.priority
      (Production.run setup p.pipeline.cancelled u p.state).state)
    (Production.run setup p.pipeline.cancelled u p.state).reviews
    (hp.marked.pop hclaims.ticketed hpop)
  have hqueueOpen : queue.closed = false := by
    rw [TaskQueue.closed_pop hpop, hclaims.closed, hopen]
  refine ⟨?_, ?_, c, ?_, ?_, ?_⟩
  · rw [next?, hpop]
    exact fun heq => hne (Option.some.inj heq)
  · exact hkept t (TaskQueue.mem_tasks_pop hclaims.ticketed hpop hwaits
      hne.symm)
  · by_cases hagain : u = .review c
    · subst hagain
      have hreviews : (Production.run setup p.pipeline.cancelled (.review c)
          p.state).reviews = [⟨c, c⟩] := by
        have hif := Production.reviews_review setup c p.state
        rwa [if_pos hheld] at hif
      exact hasked hqueueOpen ⟨c, c⟩ (by simp [hreviews]) c
        (Box.contains_singleton c)
    · exact hkept _ (TaskQueue.mem_tasks_pop hclaims.ticketed hpop hreview
        (Ne.symm hagain))
  · refine StreamState.isHeld_of_le
      (StreamState.chunk?_congr hnote.sameStock.near c) ?_
      (Production.isHeld_run setup p.pipeline.cancelled u hheld)
    intro m hm
    exact (StreamState.isResident_congr hnote.sameStock.near m).trans hm
  · rw [hcenters]
    exact hnearer

end Provider

/-- A production that waits after a step waited before it and was not next. -/
theorem Provider.next?_ne_of_mem {p q : Provider σ} {t : Task}
    (hclaims : Claims p) (h : p.work? setup = some q) (ht : t.isReview = false)
    (hwaits : t ∈ q.pipeline.queue.tasks) :
    t ∈ p.pipeline.queue.tasks ∧ p.next? ≠ some t := by
  obtain ⟨u, queue, v, completed, failed, hpop, -, rfl⟩ := work?_spec h
  have hperm := TaskQueue.perm_pop hclaims.ticketed hpop
  have hrest : t ∈ queue.tasks := by
    rcases Pipeline.mem_followUp hwaits with hrest | hreview
    · exact hrest
    · rw [ht] at hreview
      cases hreview
  refine ⟨hperm.mem_iff.2 (List.mem_cons_of_mem u hrest), ?_⟩
  rw [next?, hpop]
  intro heq
  obtain rfl : u = t := Option.some.inj heq
  -- a coordinate is claimed once, so no second task for it waits
  have hnodup := (hclaims.perm.trans (Task.perm_productions hperm)).nodup
    hclaims.nodup
  rw [Task.productions_cons, ht, if_neg (by decide), List.nodup_cons] at hnodup
  exact hnodup.1 (Task.mem_productions.2 ⟨u, hrest, ht, rfl⟩)

/-! ## Runs of the worker -/

section Runs

variable {s : Session σ} {t : Task}

/-- The provider after some steps of the worker. -/
def Session.worked (setup : Setup σ) (n : Nat) (s : Session σ) : Provider σ :=
  (s.run setup (List.replicate n .work)).provider

namespace Session

theorem worked_zero (setup : Setup σ) (s : Session σ) :
    s.worked setup 0 = s.provider := rfl

theorem worked_succ (setup : Setup σ) (n : Nat) (s : Session σ) :
    s.worked setup (n + 1) = (s.step setup .work).worked setup n := rfl

theorem worked_succ' (setup : Setup σ) (n : Nat) (s : Session σ) :
    s.worked setup (n + 1)
      = ((s.worked setup n).work? setup).getD (s.worked setup n) := by
  unfold worked
  rw [List.replicate_succ', run_concat]
  rfl

theorem ranked_worked (setup : Setup σ) (hp : Ranked s.provider)
    (hclaims : Claims s.provider) (n : Nat) :
    Ranked (s.worked setup n) ∧ Claims (s.worked setup n) := by
  refine hp.run hclaims fun a ha => ?_
  rw [List.eq_of_mem_replicate ha]
  decide

theorem centers_worked (n : Nat) (s : Session σ) :
    (s.worked setup n).state.centers = s.provider.state.centers := by
  induction n with
  | zero => rfl
  | succ n ih =>
    rw [worked_succ', ← ih]
    cases hwork : (s.worked setup n).work? setup with
    | none => rfl
    | some q => exact Provider.centers_work hwork

/-- Who is starved once is starved from then on. -/
theorem starves_worked (hp : Ranked s.provider) (hclaims : Claims s.provider)
    (ht : t.isReview = false) {n : Nat}
    (hs : (s.worked setup n).Starves t) (m : Nat) (hle : n ≤ m) :
    (s.worked setup m).Starves t ∧ (s.worked setup m).next? ≠ some t := by
  have hstep {m : Nat} (hs : (s.worked setup m).Starves t) :
      (s.worked setup m).next? ≠ some t
        ∧ (s.worked setup (m + 1)).Starves t := by
    obtain ⟨hp, hclaims⟩ := ranked_worked setup hp hclaims m
    obtain ⟨q, hq⟩ := Provider.exists_work setup hclaims hs.1
    rw [worked_succ', hq]
    exact hs.work ht hp hclaims hq
  have hstarves : (s.worked setup m).Starves t := by
    induction m, hle using Nat.le_induction with
    | base => exact hs
    | succ m _ ih => exact (hstep ih).2
  exact ⟨hstarves, (hstep hstarves).1⟩

/-- A production that waits has not been next so far. -/
theorem next?_worked_ne_of_mem (hp : Ranked s.provider)
    (hclaims : Claims s.provider) (ht : t.isReview = false) {m : Nat}
    (hwaits : t ∈ (s.worked setup m).pipeline.queue.tasks) (n : Nat)
    (hlt : n < m) : (s.worked setup n).next? ≠ some t := by
  induction m with
  | zero => cases hlt
  | succ m ih =>
    obtain ⟨-, hclaims⟩ := ranked_worked setup hp hclaims m
    cases hwork : (s.worked setup m).work? setup with
    | none =>
      rw [worked_succ', hwork] at hwaits
      obtain ⟨q, hq⟩ := Provider.exists_work setup hclaims hwaits
      rw [hwork] at hq
      cases hq
    | some q =>
      rw [worked_succ', hwork] at hwaits
      obtain ⟨hbefore, hnext⟩ :=
        Provider.next?_ne_of_mem hclaims hwork ht hwaits
      rcases Nat.lt_or_eq_of_le (Nat.le_of_lt_succ hlt) with hlt | rfl
      · exact ih hbefore hlt
      · exact hnext

/-- A task that is never starved is next after no more steps than what stands
before it is heavy. -/
theorem exists_next_of_never_starved (hp : Ranked s.provider)
    (hclaims : Claims s.provider) {m k : Nat}
    (hplace : (m, t) ∈ s.provider.pipeline.queue.places)
    (hbefore : weightBefore s.provider.state.centers (m, t)
      s.provider.pipeline.queue.places < k)
    (hstarves : ∀ n, ¬ (s.worked setup n).Starves t) :
    ∃ n < k, (s.worked setup n).next? = some t := by
  induction k generalizing s with
  | zero => exact absurd hbefore (Nat.not_lt_zero _)
  | succ k ih =>
    by_cases hnext : s.provider.next? = some t
    · exact ⟨0, Nat.succ_pos k, hnext⟩
    · obtain ⟨q, hq⟩ := Provider.exists_work setup hclaims
        (Provider.mem_tasks_of_mem_places hplace)
      obtain ⟨hplace', hless⟩ := Provider.weightBefore_work hp hclaims hq
        hplace hnext (hstarves 0)
      have hstep : (s.step setup .work).provider = q := by
        show (s.provider.work? setup).getD s.provider = q
        rw [hq, Option.getD_some]
      rw [← hstep] at hplace' hless
      have hstarves' (n : Nat) :
          ¬ ((s.step setup .work).worked setup n).Starves t := by
        rw [← worked_succ]
        exact hstarves (n + 1)
      obtain ⟨n, hn, hreached⟩ := ih (hp.step hclaims (by decide))
        (hclaims.step .work) hplace' (by omega) hstarves'
      rw [← worked_succ] at hreached
      exact ⟨n + 1, Nat.succ_lt_succ hn, hreached⟩

end Session

end Runs

/-- In every run that goes on, and whoever holds chunks: a queued production is
run by the worker on its own just when it is never starved, that is, when at no
time the review of a held chunk waits that is nearer to a center.  Then it is
run after fewer steps than the queue is heavy.  Once starved it is starved for
good, for as long as nobody else acts.  Without centers nothing is starved. -/
theorem production_run_iff_never_starved {p : Provider σ} {world : String}
    {workers : Nat} {far : σ}
    (hstart : Provider.start setup world workers far = .ok p) {acts : List Act}
    (hacts : ∀ a ∈ acts, a ≠ .dispose) {t : Task} (ht : t.isReview = false)
    (hqueued : t ∈ ((Session.ofProvider p).run setup
      acts).provider.pipeline.queue.tasks) :
    let s := (Session.ofProvider p).run setup acts
    let after n := s.worked setup n
    ((∃ n, (after n).next? = some t) ↔ ∀ n, ¬ (after n).Starves t)
      ∧ ((∀ n, ¬ (after n).Starves t) →
        ∃ n < s.provider.pipeline.queue.weight, (after n).next? = some t)
      ∧ (∀ n, (after n).Starves t → ∀ m, n ≤ m → (after m).Starves t)
      ∧ (s.provider.state.centers = [] → ∀ n, ¬ (after n).Starves t) := by
  intro s after
  obtain ⟨hp, hclaims⟩ : Ranked s.provider ∧ Claims s.provider :=
    Ranked.run (s := .ofProvider p) (Ranked.start hstart)
      (Claims.start hstart) hacts
  have hreached (hstarves : ∀ n, ¬ (after n).Starves t) :
      ∃ n < s.provider.pipeline.queue.weight, (after n).next? = some t := by
    rw [← TaskQueue.map_snd_places] at hqueued
    obtain ⟨⟨m, u⟩, hplace, htask⟩ := List.mem_map.1 hqueued
    obtain rfl : u = t := htask
    exact Session.exists_next_of_never_starved hp hclaims hplace
      (TaskQueue.weightBefore_lt_weight _ hplace) hstarves
  refine ⟨⟨?_, ?_⟩, hreached, ?_, ?_⟩
  · rintro ⟨n, hnext⟩ m hstarves
    rcases Nat.lt_or_ge n m with hlt | hle
    · exact Session.next?_worked_ne_of_mem hp hclaims ht hstarves.1 n hlt hnext
    · exact (Session.starves_worked hp hclaims ht hstarves n hle).2 hnext
  · intro hstarves
    obtain ⟨n, -, hnext⟩ := hreached hstarves
    exact ⟨n, hnext⟩
  · intro n hstarves m hle
    exact (Session.starves_worked hp hclaims ht hstarves m hle).1
  · rintro hnone n ⟨-, c, -, -, hnearer⟩
    have hcenters : (after n).state.centers = [] :=
      (Session.centers_worked n s).trans hnone
    rw [hcenters] at hnearer
    exact Nat.lt_irrefl worstScore hnearer

/-- The neighbourhood of the corner is made, somebody takes hold of the chunk
at the corner, and an observer is tracked there. -/
def Act.holdCorner : List Act :=
  .requestBox (Box.neighborhood .corner) :: List.replicate 4 .work
    ++ [.lock .corner, .move 1 (some .corner), .track 1 0 false]

/-- The chunk at the corner has to be finished and is held, so a chunk of the
observer's surroundings is never made. -/
theorem production_run_iff_never_starved_of_holdCorner :
    let s := (Session.ofProvider (.plain 100)).run (Setup.rough 100)
      Act.holdCorner
    let t : Task := .generate ⟨2147483645, 0, 2147483647⟩
    t ∈ s.provider.pipeline.queue.tasks
      ∧ ∀ n, (s.worked (Setup.rough 100) n).next? ≠ some t := by
  intro s t
  have hacts : ∀ a ∈ Act.holdCorner, a ≠ .dispose := by decide
  have hqueued : t ∈ s.provider.pipeline.queue.tasks := by decide +kernel
  have hreview : .review .corner ∈ s.provider.pipeline.queue.tasks := by
    decide +kernel
  have hheld : s.provider.state.isHeld .corner = true := by decide +kernel
  have hnearer : score s.provider.state.centers .corner
      < score s.provider.state.centers t.coord := by
    decide +kernel
  have hstarved : s.provider.Starves t :=
    ⟨hqueued, .corner, hreview, hheld, hnearer⟩
  have hall := production_run_iff_never_starved (start_rough 100) hacts
    (rfl : t.isReview = false) hqueued
  have hs : s = (Session.ofProvider (.plain 100)).run (Setup.rough 100)
    Act.holdCorner := rfl
  simp only [← hs] at hall
  refine ⟨hqueued, fun n hnext => hall.1.1 ⟨n, hnext⟩ 0 ?_⟩
  rwa [Session.worked_zero]

end ChunkStream
