import ChunkStream.Proofs.Streaming.Stock
import ChunkStream.Proofs.Work.Tasks

/-!
# What a step of the worker does

The worker takes one task and runs it to its end, and a task ends in one of a
few ways: it gives its claim back, it makes a chunk resident, or it looks at a
resident chunk, which it may finish.  Everything said about the worker later is
said by going through these ways; the functions themselves are opened here
only.
-/

namespace ChunkStream

variable {σ : Type}

/-- The second state has entries aside on top of the first one's journal, and is
otherwise the same. -/
structure Annotated (s t : StreamState σ) : Prop where
  frame : t = { s with journal := t.journal }
  journal : Asides s.journal t.journal

namespace Annotated

variable {s t : StreamState σ}

protected theorem refl (s : StreamState σ) : Annotated s s := ⟨rfl, .refl _⟩

theorem record {e : JournalEntry} (he : e.isAside = true) (s : StreamState σ) :
    Annotated s (s.record e) :=
  ⟨rfl, .cons he _⟩

theorem sameStock (h : Annotated s t) : SameStock s t := by
  rw [h.frame]
  exact ⟨rfl, rfl, rfl, rfl, rfl, rfl, rfl, .inr ⟨rfl, rfl⟩, h.journal⟩

end Annotated

/-! ## Announcing -/

/-- The states differ in what is announced and signalled: what is ready among
some coordinates is announced now, and what was not announced before has been
signalled once more. -/
structure Announcing (cs : List Coord) (s t : StreamState σ) : Prop where
  frame : t = { s with announced := t.announced, signals := t.signals }
  mem_announced : ∀ x, x ∈ t.announced ↔ x ∈ s.announced ∨ x ∈ cs
    ∧ s.isReady x = true
  count_signals : ∀ x, t.signals.count x + (if x ∈ s.announced then 1 else 0)
    = s.signals.count x + (if x ∈ t.announced then 1 else 0)
  nodup : s.announced.Nodup → t.announced.Nodup

namespace Announcing

variable {s t u : StreamState σ} {cs : List Coord} {c : Coord}

theorem near (h : Announcing cs s t) : t.near = s.near := by rw [h.frame]

theorem announce_cons_of_new (hready : s.isReady c = true)
    (hnew : c ∉ s.announced) (hs : Announcing cs (s.announce c) t) :
    Announcing (c :: cs) s t := by
  simp only [StreamState.announce, hnew, if_false] at hs
  refine ⟨hs.frame, ?_, ?_, fun hnodup => hs.nodup ?_⟩
  · intro x
    rw [hs.mem_announced]
    simp only [StreamState.signal, List.mem_cons]
    have hsame : StreamState.isReady { s with
        announced := c :: s.announced, signals := s.signals ++ [c] } x
          = s.isReady x :=
      StreamState.isReady_congr rfl x
    rw [hsame]
    constructor
    · rintro ((rfl | h) | ⟨h, hx⟩)
      · exact .inr ⟨.inl rfl, hready⟩
      · exact .inl h
      · exact .inr ⟨.inr h, hx⟩
    · rintro (h | ⟨rfl | h, hx⟩)
      · exact .inl (.inr h)
      · exact .inl (.inl rfl)
      · exact .inr ⟨h, hx⟩
  · intro x
    have hcount := hs.count_signals x
    simp only [StreamState.signal, List.mem_cons, List.count_append]
      at hcount
    by_cases hx : x = c
    · subst hx
      simp only [true_or, if_true, List.count_singleton_self, hnew,
        if_false] at hcount ⊢
      omega
    · have hzero : List.count x [c] = 0 := by
        simpa [List.count_eq_zero] using hx
      simp only [hx, false_or, hzero, Nat.add_zero] at hcount
      exact hcount
  · simpa [StreamState.signal, hnew] using hnodup

theorem cons_of_announced (hold : s.isReady c = true → c ∈ s.announced)
    (hs : Announcing cs s t) : Announcing (c :: cs) s t := by
  refine ⟨hs.frame, ?_, hs.count_signals, hs.nodup⟩
  intro x
  rw [hs.mem_announced, List.mem_cons]
  constructor
  · rintro (h | ⟨h, hx⟩)
    · exact .inl h
    · exact .inr ⟨.inr h, hx⟩
  · rintro (h | ⟨rfl | h, hx⟩)
    · exact .inl h
    · exact .inl (hold hx)
    · exact .inr ⟨h, hx⟩

theorem announce_cons
    (hs : Announcing cs (if s.isReady c then s.announce c else s) t) :
    Announcing (c :: cs) s t := by
  by_cases hready : s.isReady c = true
  · rw [if_pos hready] at hs
    by_cases hold : c ∈ s.announced
    · rw [StreamState.announce, if_pos hold] at hs
      exact cons_of_announced (fun _ => hold) hs
    · exact announce_cons_of_new hready hold hs
  · rw [if_neg hready] at hs
    exact cons_of_announced (fun h => absurd h hready) hs

theorem foldl (cs : List Coord) (s : StreamState σ) :
    Announcing cs s
      (cs.foldl (fun s n => if s.isReady n then s.announce n else s) s) := by
  induction cs generalizing s with
  | nil => exact ⟨rfl, fun x => by simp, fun x => rfl, id⟩
  | cons c cs ih => exact announce_cons (ih _)

theorem announceAround (c : Coord) (s : StreamState σ) :
    Announcing (Box.neighborhood c).toList s (s.announceAround c) :=
  foldl _ s

end Announcing

/-! ## Running a task -/

namespace Production

variable {setup : Setup σ} {s : StreamState σ}

/-- The task gets a chunk from the tier or the generator. -/
def Acquires (setup : Setup σ) (far : σ) : Task → Chunk → Prop
  | .load c, chunk => setup.tier.get c far = .ok (some chunk)
  | t, chunk => setup.generator.generate t.coord = .ok chunk

/-- The state with the chunk of a task made resident and the claim given
back. -/
def settleChunk (t : Task) (chunk : Chunk) (s : StreamState σ) :
    StreamState σ :=
  unclaim t.coord ((s.install t.coord chunk).record (.installed t))

/-- Announces around a coordinate if its chunk is complete. -/
def announceIfComplete (c : Coord) (s : StreamState σ) : StreamState σ :=
  if s.isResidentComplete c then s.announceAround c else s

theorem acquire_spec (setup : Setup σ) (t : Task) (s : StreamState σ) :
    Annotated s (acquire setup t s).2
      ∧ ∀ chunk, (acquire setup t s).1 = .ok chunk ↔
          Acquires setup s.far t chunk := by
  cases t with
  | load c =>
    refine ⟨.record rfl s, ?_⟩
    intro chunk
    simp only [acquire, Acquires]
    cases setup.tier.get c s.far with
    | error cause => simp
    | ok found => cases found <;> simp
  | generate c | review c =>
    refine ⟨.record rfl s, ?_⟩
    intro chunk
    simp only [acquire, Acquires, Task.coord]
    cases setup.generator.generate c with
    | error cause => cases cause <;> simp
    | ok found => simp

/-- A task that is to make a chunk resident does so, or it only gives its claim
back. -/
theorem produce_cases (setup : Setup σ) (cancelled : Bool) (t : Task)
    (s : StreamState σ) :
    (∃ u failure, Annotated s u
        ∧ (cancelled = true ∨ ∀ chunk, ¬ Acquires setup s.far t chunk)
        ∧ produce setup cancelled t s
          = { state := unclaim t.coord u, outcome := .error failure })
      ∨ ∃ u chunk, Annotated s u ∧ cancelled = false
        ∧ Acquires setup s.far t chunk
        ∧ produce setup cancelled t s
          = { state := announceIfComplete t.coord (settleChunk t chunk u)
              reviews := [Box.neighborhood t.coord] } := by
  obtain ⟨hnote, hgot⟩ := acquire_spec setup t s
  cases cancelled with
  | true => exact .inl ⟨s, .error .cancelled, .refl s,
      .inl rfl, by simp [produce]⟩
  | false =>
    cases hacquire : acquire setup t s with
    | mk result u =>
      rw [hacquire] at hnote hgot
      cases result with
      | error failure =>
        refine .inl ⟨u, failure, hnote,
          .inr ?_, by simp [produce, hacquire]⟩
        intro chunk hchunk
        simpa using (hgot chunk).2 hchunk
      | ok chunk =>
        exact .inr ⟨u, chunk, hnote, rfl, (hgot chunk).1 rfl, by
          simp only [produce, hacquire, Bool.false_eq_true, if_false]
          rfl⟩

/-- A review leaves the state as it is, announces around a complete chunk, or
finishes an incomplete one that nobody holds and that has all its
neighbours. -/
theorem review_cases (setup : Setup σ) (c : Coord) (s : StreamState σ) :
    (∃ reviews, (reviews = [] ∨ reviews = [⟨c, c⟩]
      ∧ ∃ chunk, s.chunk? c = some chunk
          ∧ chunk.locked = true)
        ∧ review setup c s = { state := s, reviews := reviews })
      ∨ review setup c s = { state := announceIfComplete c s }
      ∨ ∃ chunk, s.chunk? c = some chunk ∧ chunk.isComplete = false
        ∧ s.isSurrounded c = true
        ∧ chunk.locked = false
        ∧ ∃ u, Annotated s u
        ∧ ((∃ next completion, setup.generator.finish chunk
          = (next, .ok completion)
            ∧ review setup c s
              = { state := announceIfComplete c
                    (u.adjustChunk c fun _ => next.setCompletion completion) })
          ∨ ∃ next cause failure, setup.generator.finish chunk
            = (next, .error cause)
            ∧ review setup c s
              = { state := u.adjustChunk c fun _ => next,
                  outcome := .error failure }) := by
  cases hchunk : s.chunk? c with
  | none => exact .inl ⟨[], .inl rfl, by simp [review, hchunk]⟩
  | some chunk =>
    cases hcomplete : chunk.isComplete with
    | true =>
      refine .inr (.inl ?_)
      simp [review, hchunk, hcomplete, concludeReview, announceIfComplete]
    | false =>
      cases hsurrounded : s.isSurrounded c with
      | false => exact .inl ⟨[],
          .inl rfl, by simp [review, hchunk, hcomplete, hsurrounded]⟩
      | true =>
        cases hlocked : chunk.locked with
        | true =>
          exact .inl ⟨[⟨c, c⟩], .inr ⟨rfl, chunk, rfl, hlocked⟩, by
            simp [review, hchunk, hcomplete, hsurrounded, hlocked]⟩
        | false =>
          refine .inr (.inr ⟨chunk, rfl, hcomplete, rfl, hlocked, _,
            .record (e := .called (.finish chunk.coord)) rfl s, ?_⟩)
          cases hfinish : setup.generator.finish chunk with
          | mk next result =>
            cases result with
            | ok completion =>
              refine .inl ⟨next, completion, rfl, ?_⟩
              simp [review, hchunk, hcomplete, hsurrounded, hlocked,
                finishChunk, hfinish,
                concludeReview, announceIfComplete]
            | error cause =>
              refine .inr ⟨next, cause, ?_⟩
              cases cause with
              | error cause =>
                exact ⟨.error (.generate cause), rfl, by
                  simp [review, hchunk, hcomplete, hsurrounded, hlocked,
                    finishChunk, hfinish]⟩
              | fault cause =>
                exact ⟨.fault cause, rfl, by
                  simp [review, hchunk, hcomplete, hsurrounded, hlocked,
                    finishChunk, hfinish]⟩

theorem run_production (cancelled : Bool) {t : Task} (ht : t.isReview = false)
    (s : StreamState σ) :
    run setup cancelled t s = produce setup cancelled t s := by
  cases t with
  | review c => simp [Task.isReview] at ht
  | _ => rfl

end Production

/-! ## What a task leaves alone -/

/-- The same coordinates are resident and claimed, for the same regions over the
same far tier. -/
structure SamePlaces (s t : StreamState σ) : Prop where
  resident : ∀ c, t.isResident c = s.isResident c
  preparing : t.preparing = s.preparing
  regions : t.regions = s.regions
  far : t.far = s.far
  journal : Asides s.journal t.journal

namespace SamePlaces

variable {s t u : StreamState σ}

protected theorem refl (s : StreamState σ) : SamePlaces s s :=
  ⟨fun _ => rfl, rfl, rfl, rfl, .refl _⟩

protected theorem trans (h : SamePlaces s t) (h' : SamePlaces t u) :
    SamePlaces s u where
  resident c := (h'.resident c).trans (h.resident c)
  preparing := h'.preparing.trans h.preparing
  regions := h'.regions.trans h.regions
  far := h'.far.trans h.far
  journal := h.journal.trans h'.journal

theorem of_annotated (h : Annotated s t) : SamePlaces s t := by
  rw [h.frame]
  exact ⟨fun _ => rfl, rfl, rfl, rfl, h.journal⟩

theorem of_announcing {cs : List Coord} (h : Announcing cs s t) :
    SamePlaces s t := by
  rw [h.frame]
  exact ⟨fun _ => rfl, rfl, rfl, rfl, .refl _⟩

theorem adjustChunk (c : Coord) (f : Chunk → Chunk) (s : StreamState σ) :
    SamePlaces s (s.adjustChunk c f) := by
  refine ⟨?_, rfl, rfl, rfl, .refl _⟩
  intro x
  simp only [StreamState.isResident, StreamState.resident?,
    StreamState.adjustChunk,
    Table.get?_adjust]
  split
  · exact Option.isSome_map
  · rfl

theorem announceIfComplete (c : Coord) (s : StreamState σ) :
    SamePlaces s (Production.announceIfComplete c s) := by
  unfold Production.announceIfComplete
  split
  · exact of_announcing (Announcing.announceAround c s)
  · exact .refl s

/-- A review neither brings a chunk nor touches a claim. -/
theorem review (setup : Setup σ) (c : Coord) (s : StreamState σ) :
    SamePlaces s (Production.review setup c s).state := by
  rcases Production.review_cases setup c s with
    ⟨reviews, -, h⟩ | h | ⟨chunk, -, -, -, -, u, hnote, hfinish⟩
  · rw [h]
    exact .refl s
  · rw [h]
    exact announceIfComplete c s
  · rcases hfinish with ⟨next, completion, -, h⟩ | ⟨next, cause, failure, -, h⟩
    · rw [h]
      exact (of_annotated hnote).trans
        ((adjustChunk c _ u).trans (announceIfComplete c _))
    · rw [h]
      exact (of_annotated hnote).trans (adjustChunk c (fun _ => next) u)

end SamePlaces

namespace Production

theorem isResident_settleChunk (t : Task) (chunk : Chunk) (s : StreamState σ)
    (c : Coord) :
    (settleChunk t chunk s).isResident c = true ↔ s.isResident c = true
        ∨ c = t.coord := by
  by_cases hheld : s.isResident t.coord = true
  · have hsame : (settleChunk t chunk s).isResident c = s.isResident c := by
      simp only [settleChunk, StreamState.install, hheld, if_true]
      rfl
    rw [hsame]
    constructor
    · exact .inl
    · rintro (h | rfl)
      · exact h
      · exact hheld
  · have hget : (settleChunk t chunk s).isResident c
        = (Table.get? (Table.insert s.near t.coord ⟨chunk, s.nextAge⟩)
            c).isSome := by
      simp only [settleChunk, StreamState.install, hheld]
      rfl
    rw [hget, Table.get?_insert]
    by_cases hc : t.coord = c
    · simp [hc]
    · simp [hc, Ne.symm hc, StreamState.isResident, StreamState.resident?]

/-- Making a chunk resident leaves the other claims, the regions and the far
tier alone, and a free place is not found taken. -/
theorem settleChunk_frame (t : Task) (chunk : Chunk) (s : StreamState σ) :
    (settleChunk t chunk s).preparing = s.preparing.erase t.coord
      ∧ (settleChunk t chunk s).regions = s.regions
      ∧ (settleChunk t chunk s).far = s.far
      ∧ (s.isResident t.coord = false →
          (settleChunk t chunk s).journal = .installed t :: s.journal) := by
  by_cases hheld : s.isResident t.coord = true
  · simp only [settleChunk, StreamState.install, hheld, if_true]
    exact ⟨rfl, rfl, rfl, fun h => absurd h (by simp)⟩
  · simp only [settleChunk, StreamState.install, hheld]
    exact ⟨rfl, rfl, rfl, fun _ => rfl⟩

/-- No task touches a region or the far tier. -/
theorem run_frame (setup : Setup σ) (cancelled : Bool) (t : Task)
    (s : StreamState σ) :
    (run setup cancelled t s).state.regions = s.regions
      ∧ (run setup cancelled t s).state.far = s.far := by
  have hproduce : (produce setup cancelled t s).state.regions = s.regions
      ∧ (produce setup cancelled t s).state.far = s.far := by
    rcases produce_cases setup cancelled t s with
      ⟨u, failure, hnote, -, h⟩ | ⟨u, chunk, hnote, -, -, h⟩
    · have hsame := SamePlaces.of_annotated hnote
      rw [h]
      exact ⟨hsame.regions, hsame.far⟩
    · have hsame := SamePlaces.of_annotated hnote
      have hannounce :=
        SamePlaces.announceIfComplete t.coord (settleChunk t chunk u)
      obtain ⟨-, hregions, hfar, -⟩ := settleChunk_frame t chunk u
      rw [h]
      exact ⟨hannounce.regions.trans (hregions.trans hsame.regions),
        hannounce.far.trans (hfar.trans hsame.far)⟩
  cases t with
  | review c => exact ⟨(SamePlaces.review setup c s).regions,
      (SamePlaces.review setup c s).far⟩
  | load c => exact hproduce
  | generate c => exact hproduce

end Production

/-! ## A step -/

namespace Provider

variable {setup : Setup σ} {p q : Provider σ}

/-- A provider starts without chunks. -/
theorem start_spec {world : String} {workers : Nat} {far : σ}
    (h : Provider.start setup world workers far = .ok p) :
    Annotated (.start far) p.state ∧ p.pipeline.queue = .empty
      ∧ p.pipeline.stopped = false
      ∧ p.pipeline.cancelled = false := by
  unfold Provider.start Pipeline.start at h
  split at h
  · cases h
  · cases h
    exact ⟨⟨rfl, (Asides.cons rfl _).trans (.cons rfl _)⟩, rfl, rfl, rfl⟩

theorem regions_start {world : String} {workers : Nat} {far : σ}
    (h : Provider.start setup world workers far = .ok p) :
    p.state.regions = [] := by
  rw [(start_spec h).1.frame]
  rfl

theorem forall_region_start {P : ObserverId → Interest → Prop} {world : String}
    {workers : Nat} {far : σ}
    (h : Provider.start setup world workers far = .ok p) (id : ObserverId)
    (i : Interest) (hi : Table.get? p.state.regions id = some i) : P id i := by
  rw [regions_start h] at hi
  cases hi

theorem nodup_keys_regions_start {world : String} {workers : Nat} {far : σ}
    (h : Provider.start setup world workers far = .ok p) :
    (Table.keys p.state.regions).Nodup := by
  rw [regions_start h]
  exact List.nodup_nil

theorem conclude_spec (setup : Setup σ) (t : Task)
    (outcome : Except (Failure TaskError) Unit) (p : Pipeline (StreamState σ)) :
    ∃ u completed failed, Annotated p.state u
      ∧ Pipeline.conclude (Production.handler setup) t outcome p
        = { p with state := u, completed := completed, failed := failed } := by
  match outcome with
  | .ok () => exact ⟨_, _, _, .refl _, rfl⟩
  | .error (.error .cancelled) =>
    exact ⟨_, _, _, .record (e := .noted (.pipeline (.cancelled t))) rfl _, rfl⟩
  | .error (.error (.generate cause)) =>
    exact ⟨_, _, _, .record
      (e := .noted (.pipeline (.failed t (.generate cause)))) rfl _, rfl⟩
  | .error (.error (.store cause)) =>
    exact ⟨_, _, _, .record (e := .noted (.pipeline (.failed t (.store cause))))
      rfl _, rfl⟩
  | .error (.error (.missing c)) =>
    exact ⟨_, _, _, .record (e := .noted (.pipeline (.failed t (.missing c))))
      rfl _, rfl⟩
  | .error (.fault cause) =>
    exact ⟨_, _, _, .record (e := .noted (.pipeline (.faulted t))) rfl _, rfl⟩

/-- A step of the worker takes a task out of the queue, leaves behind the state
that the task leaves behind, and queues the reviews that it asks for. -/
theorem work?_spec (h : p.work? setup = some q) :
    ∃ t queue u completed failed,
      p.pipeline.queue.pop? (Production.priority p.state) = some (t, queue)
      ∧ Annotated (Production.run setup p.pipeline.cancelled t p.state).state u
      ∧ q = { p with
          pipeline := { p.pipeline with
            state := u
            queue := Pipeline.followUp
              (Production.priority
                (Production.run setup p.pipeline.cancelled t p.state).state)
              (Production.run setup p.pipeline.cancelled t p.state).reviews
                queue
            cancelled := p.pipeline.cancelled
              || (Production.run setup p.pipeline.cancelled t p.state).cancels
            completed := completed
            failed := failed } } := by
  simp only [work?, Option.map_eq_some_iff, Pipeline.work?] at h
  obtain ⟨pipeline, hstep, rfl⟩ := h
  have hhandler : (Production.handler setup).priority p.pipeline.state
      = Production.priority p.state := rfl
  rw [hhandler] at hstep
  cases hpop : p.pipeline.queue.pop? (Production.priority p.state) with
  | none => simp [hpop] at hstep
  | some popped =>
    obtain ⟨t, queue⟩ := popped
    simp only [hpop, Option.some.injEq, Pipeline.runTask] at hstep
    obtain ⟨u, completed, failed, hnote, hconclude⟩ := conclude_spec setup t
      ((Production.run setup p.pipeline.cancelled t p.state).outcome)
      { p.pipeline with
        state := (Production.run setup p.pipeline.cancelled t p.state).state
        queue := Pipeline.followUp
          (Production.priority
            (Production.run setup p.pipeline.cancelled t p.state).state)
          (Production.run setup p.pipeline.cancelled t p.state).reviews queue
        cancelled := p.pipeline.cancelled
          || (Production.run setup p.pipeline.cancelled t p.state).cancels }
    exact ⟨t, queue, u, completed, failed, rfl,
      hnote, by rw [← hstep, ← hconclude]; rfl⟩

/-- The worker rests when the queue is closed or empty. -/
theorem work?_eq_none_iff :
    p.work? setup = none ↔ p.pipeline.queue.closed = true
        ∨ p.pipeline.queue.tasks = [] := by
  simp only [work?, Option.map_eq_none_iff, Pipeline.work?]
  rw [← TaskQueue.pop?_eq_none_iff
    (p := (Production.handler setup).priority p.pipeline.state)]
  cases p.pipeline.queue.pop?
    ((Production.handler setup).priority p.pipeline.state) <;> simp

theorem work?_frame (h : p.work? setup = some q) :
    q.state.regions = p.state.regions ∧ q.state.far = p.state.far := by
  obtain ⟨t, queue, u, completed, failed, -, hnote, rfl⟩ := work?_spec h
  have hsame := SamePlaces.of_annotated hnote
  obtain ⟨hregions, hfar⟩ :=
    Production.run_frame setup p.pipeline.cancelled t p.state
  exact ⟨hsame.regions.trans hregions, hsame.far.trans hfar⟩

end Provider

end ChunkStream
