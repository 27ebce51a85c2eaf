import ChunkStream.Proofs.Streaming.Retention
import ChunkStream.Proofs.Work.Reviews

/-!
# Incomplete chunks are finished

An incomplete chunk can be finished once all its neighbours are resident, and
only a review finishes it.  A review that finds a neighbour missing is dropped;
but the neighbour's own arrival has the whole neighbourhood reviewed again, and
a review that finds the chunk held asks for another.  So as long as finishing
does not fail, whoever could be finished has a review waiting.

A neighbourhood that is resident need not be complete.  A neighbour that misses
one of its own neighbours stays incomplete, and with an empty queue it is this
alone that keeps a chunk from being ready.
-/

namespace ChunkStream

variable {σ : Type} {setup : Setup σ}

/-! ## What a review does to the near cache -/

namespace StreamState

variable {s t : StreamState σ} {c : Coord} {gone : List Coord}

/-- The chunk is resident and incomplete, and its neighbours are resident. -/
def isUnfinished (s : StreamState σ) (c : Coord) : Bool :=
  (s.chunk? c).any (!·.isComplete) && s.isSurrounded c

/-- The chunk is unfinished, and nobody holds it. -/
def isFinishable (s : StreamState σ) (c : Coord) : Bool :=
  s.isUnfinished c && (s.chunk? c).any (!·.locked)

theorem isSurrounded_iff :
    s.isSurrounded c = true ↔
      ∀ n, (Box.neighborhood c).contains n = true → s.isResident n = true := by
  simp only [isSurrounded, List.all_eq_true, Box.mem_toList_iff]

theorem isUnfinished_iff :
    s.isUnfinished c = true ↔
      s.isResidentComplete c = false
        ∧ ∀ n, (Box.neighborhood c).contains n = true →
          s.isResident n = true := by
  rw [isUnfinished, Bool.and_eq_true, isSurrounded_iff]
  apply and_congr_left
  intro hsurrounded
  have hresident := hsurrounded c Box.contains_neighborhood_self
  rw [isResident_eq] at hresident
  obtain ⟨chunk, hchunk⟩ := Option.isSome_iff_exists.1 hresident
  simp [isResidentComplete_eq, hchunk]

/-- Whether a chunk is unfinished is a matter of its neighbours' residency and
of its own tag. -/
theorem isUnfinished_of_le (hcomplete : s.isResidentComplete c
      = t.isResidentComplete c)
    (hresident : ∀ n, (Box.neighborhood c).contains n = true →
      t.isResident n = true → s.isResident n = true)
    (h : t.isUnfinished c = true) : s.isUnfinished c = true := by
  rw [isUnfinished_iff] at h ⊢
  exact ⟨hcomplete.trans h.1, fun n hn => hresident n hn (h.2 n hn)⟩

theorem isUnfinished_of_near (hnear : t.near = s.near)
    (h : t.isUnfinished c = true) : s.isUnfinished c = true :=
  isUnfinished_of_le (isResidentComplete_congr hnear c).symm
    (fun n _ hn => (isResident_congr hnear n).symm.trans hn) h

/-- A sweep leaves no chunk unfinished that was not so before. -/
theorem isUnfinished_of_swept (hswept : Swept setup gone s t)
    (h : t.isUnfinished c = true) : s.isUnfinished c = true := by
  have hstays : c ∉ gone := by
    have hresident := (isUnfinished_iff.1 h).2 c Box.contains_neighborhood_self
    exact (hswept.isResident.1 hresident).2
  refine isUnfinished_of_le ?_ (fun n _ hn => (hswept.isResident.1 hn).1) h
  rw [Bool.eq_iff_iff, hswept.isResidentComplete]
  exact (and_iff_left hstays).symm

end StreamState

namespace Production

variable {s : StreamState σ} {c : Coord}

@[simp]
theorem near_announceIfComplete (c : Coord) (s : StreamState σ) :
    (announceIfComplete c s).near = s.near := by
  unfold announceIfComplete
  split
  · exact (Announcing.announceAround c s).near
  · rfl

/-- The chunk that finishing leaves behind. -/
def finished :
    Chunk × Except (Failure GenerateError) Completion → Chunk
  | (next, .ok completion) => next.setCompletion completion
  | (next, .error _) => next

theorem isComplete_finished
    {made : Chunk × Except (Failure GenerateError) Completion}
    (h : made.2 = .ok .complete) : (finished made).isComplete = true := by
  obtain ⟨next, result⟩ := made
  obtain rfl : result = .ok .complete := h
  rfl

theorem coord_finished
    (made : Chunk × Except (Failure GenerateError) Completion) :
    (finished made).coord = made.1.coord := by
  obtain ⟨next, completion | cause⟩ := made <;> rfl

theorem content_finished
    (made : Chunk × Except (Failure GenerateError) Completion) :
    (finished made).content = made.1.content := by
  obtain ⟨next, completion | cause⟩ := made <;> rfl

theorem near_finishChunk (setup : Setup σ) (c : Coord) (chunk : Chunk)
    (s : StreamState σ) :
    (finishChunk setup c chunk s).state.near
      = (s.adjustChunk c fun _ =>
          finished (setup.generator.finish chunk)).near := by
  unfold finishChunk
  rcases setup.generator.finish chunk with ⟨next, completion | cause⟩
  · cases completion <;> rfl
  · exact near_announceIfComplete c _

/-- A review finishes its chunk when it can. -/
theorem review_of_finishable (setup : Setup σ)
    (h : s.isFinishable c = true) :
    ∃ chunk, s.chunk? c = some chunk ∧ chunk.isComplete = false
      ∧ review setup c s = finishChunk setup c chunk s := by
  simp only [StreamState.isFinishable, StreamState.isUnfinished,
    Bool.and_eq_true] at h
  obtain ⟨⟨hincomplete, hsurrounded⟩, hfree⟩ := h
  obtain ⟨chunk, hchunk, hincomplete⟩ := (Option.any_eq_true _ _).1 hincomplete
  rw [hchunk, Option.any_some, Bool.not_eq_true'] at hfree
  rw [Bool.not_eq_true'] at hincomplete
  refine ⟨chunk, hchunk, hincomplete, ?_⟩
  simp [review, hchunk, hincomplete, hsurrounded, hfree]

/-- Otherwise it leaves the near cache alone, and if the chunk is unfinished
then somebody holds it, and the review asks for another one. -/
theorem review_of_not_finishable (setup : Setup σ)
    (h : s.isFinishable c = false) :
    (review setup c s).state.near = s.near
      ∧ (s.isUnfinished c = true →
        ⟨c, c⟩ ∈ (review setup c s).reviews) := by
  cases hchunk : s.chunk? c with
  | none =>
    have hreview : review setup c s = { state := s } := by
      simp [review, hchunk]
    rw [hreview]
    exact ⟨rfl, fun hnone => by simp [StreamState.isUnfinished, hchunk]
      at hnone⟩
  | some chunk =>
    cases hcomplete : chunk.isComplete with
    | true =>
      have hreview : review setup c s = concludeReview c s := by
        simp [review, hchunk, hcomplete]
      rw [hreview]
      exact ⟨near_announceIfComplete c s, fun hnone => by
        simp [StreamState.isUnfinished, hchunk, hcomplete] at hnone⟩
    | false =>
      cases hsurrounded : s.isSurrounded c with
      | false =>
        have hreview : review setup c s = { state := s } := by
          simp [review, hchunk, hcomplete, hsurrounded]
        rw [hreview]
        exact ⟨rfl, fun hnone => by
          simp [StreamState.isUnfinished, hsurrounded] at hnone⟩
      | true =>
        have hlocked : chunk.locked = true := by
          simpa [StreamState.isFinishable, StreamState.isUnfinished, hchunk,
            hcomplete, hsurrounded] using h
        have hreview : review setup c s
            = { state := s, reviews := [⟨c, c⟩] } := by
          simp [review, hchunk, hcomplete, hsurrounded, hlocked]
        rw [hreview]
        exact ⟨rfl, fun _ => List.mem_singleton_self _⟩

end Production

/-! ## The invariant -/

/-- The coordinate whose chunk the next step of the worker finishes. -/
def Provider.finishing? (p : Provider σ) : Option Coord :=
  match p.pipeline.queue.pop? (Production.priority p.state) with
  | some (.review c, _) => if p.state.isFinishable c then some c else none
  | _ => none

/-- Production goes on, and a review waits for every unfinished chunk. -/
structure Reviewed (p : Provider σ) : Prop where
  claims : Claims p
  opened : p.pipeline.stopped = false
  aged : WellAged p.state
  marked : p.pipeline.queue.Marked
  waiting : ∀ c, p.state.isUnfinished c = true →
    .review c ∈ p.pipeline.queue.tasks

namespace Reviewed

variable {p q : Provider σ} {c : Coord}

/-- Changes of the state that leave no other chunk unfinished. -/
theorem modifyState (hp : Reviewed p) {f : StreamState σ → StreamState σ}
    (hclaims : Claims (p.modifyState f)) (haged : WellAged (f p.state))
    (hunfinished : ∀ c, (f p.state).isUnfinished c = true →
      p.state.isUnfinished c = true) : Reviewed (p.modifyState f) :=
  ⟨hclaims, hp.opened, haged, hp.marked,
    fun c hc => hp.waiting c (hunfinished c hc)⟩

theorem ask (hp : Reviewed p) (h : Provider.Ask setup p q) : Reviewed q := by
  have hclaims := hp.claims.advance h.advance
  cases h with
  | beside h =>
    exact hp.modifyState hclaims (hp.aged.of_near h.near h.nextAge) fun c =>
      StreamState.isUnfinished_of_near h.near
  | request c =>
    rcases Provider.requestChunk_cases setup hp.claims.closed c with
      ⟨-, h⟩ | ⟨-, -, -, h⟩
    · rwa [h]
    · rw [h] at hclaims ⊢
      refine ⟨hclaims, hp.opened, hp.aged.of_near rfl rfl,
        hp.marked.enqueue (Provider.isReview_taskFor c p.state), ?_⟩
      intro n hn
      rw [Provider.tasks_claim]
      exact List.mem_cons_of_mem _
        (hp.waiting n (StreamState.isUnfinished_of_near rfl hn))

theorem asks (hp : Reviewed p) (h : Provider.Asks setup p q) : Reviewed q :=
  h.preserve (fun _ _ hstep hp => hp.ask hstep) hp

/-- After a review, what is unfinished was so before and is not the reviewed
chunk, or the review asked for another one. -/
theorem review (c : Coord) (s : StreamState σ)
    (hfinish : ∀ chunk, s.isFinishable c = true → s.chunk? c = some chunk →
      (setup.generator.finish chunk).2 = .ok .complete) (n : Coord)
    (h : (Production.review setup c s).state.isUnfinished n = true) :
    s.isUnfinished n = true
      ∧ (n = c → ⟨c, c⟩ ∈ (Production.review setup c s).reviews) := by
  cases hfinishable : s.isFinishable c with
  | false =>
    obtain ⟨hnear, hreviews⟩ :=
      Production.review_of_not_finishable setup hfinishable
    have hbefore := StreamState.isUnfinished_of_near hnear h
    refine ⟨hbefore, ?_⟩
    rintro rfl
    exact hreviews hbefore
  | true =>
    obtain ⟨chunk, hchunk, -, hreview⟩ :=
      Production.review_of_finishable setup hfinishable
    have hcomplete := hfinish chunk hfinishable hchunk
    have hnear := Production.near_finishChunk setup c chunk s
    rw [hreview] at h ⊢
    have hadjusted := StreamState.isUnfinished_of_near hnear h
    have hincomplete := (StreamState.isUnfinished_iff.1 hadjusted).1
    rw [StreamState.isResidentComplete_adjustChunk] at hincomplete
    have hne : n ≠ c := by
      rintro rfl
      rw [if_pos rfl, hchunk, Option.any_some,
        Production.isComplete_finished hcomplete] at hincomplete
      cases hincomplete
    refine ⟨StreamState.isUnfinished_of_le ?_ ?_ hadjusted,
      fun heq => absurd heq hne⟩
    · rw [StreamState.isResidentComplete_adjustChunk, if_neg hne]
    · intro m _ hm
      rwa [(SamePlaces.adjustChunk c _ s).resident] at hm

/-- After a production, what is unfinished was so before, or a review of it was
asked for. -/
theorem produce (setup : Setup σ) (cancelled : Bool) (t : Task)
    (s : StreamState σ) (n : Coord)
    (h : (Production.produce setup cancelled t s).state.isUnfinished n = true) :
    s.isUnfinished n = true
      ∨ ∃ b ∈ (Production.produce setup cancelled t s).reviews,
        b.contains n = true := by
  rcases Production.produce_cases setup cancelled t s with
    ⟨u, failure, hnote, -, hproduce⟩ | ⟨u, chunk, hnote, -, -, hproduce⟩
  · rw [hproduce] at h
    exact .inl (StreamState.isUnfinished_of_near hnote.sameStock.near h)
  · rw [hproduce] at h ⊢
    have hsettled := StreamState.isUnfinished_of_near
      (Production.near_announceIfComplete t.coord _) h
    by_cases hnear : (Box.neighborhood n).contains t.coord = true
    · refine .inr ⟨Box.neighborhood t.coord, List.mem_singleton_self _, ?_⟩
      exact Box.contains_neighborhood_comm.1 hnear
    · have hne (m : Coord) (hm : (Box.neighborhood n).contains m = true) :
          m ≠ t.coord := by
        rintro rfl
        exact hnear hm
      refine .inl (StreamState.isUnfinished_of_near hnote.sameStock.near
        (StreamState.isUnfinished_of_le ?_ ?_ hsettled))
      · rw [Production.isResidentComplete_settleChunk, if_neg]
        exact fun heq => hne n Box.contains_neighborhood_self heq.1
      · intro m hm hresident
        rw [Production.isResident_settleChunk] at hresident
        exact hresident.resolve_right (hne m hm)

theorem work (hp : Reviewed p)
    (hfinish : ∀ c chunk, p.finishing? = some c →
      p.state.chunk? c = some chunk →
      (setup.generator.finish chunk).2 = .ok .complete)
    (h : p.work? setup = some q) : Reviewed q := by
  have hclaims := hp.claims.work h
  have hripened := Ripened.work h
  obtain ⟨t, queue, u, completed, failed, hpop, hnote, rfl⟩ :=
    Provider.work?_spec h
  have hopen : queue.closed = false := by
    rw [TaskQueue.closed_pop hpop, hp.claims.closed, hp.opened]
  obtain ⟨hmarked, hkept, hreviews⟩ := Pipeline.marked_followUp
    (p := Production.priority
      (Production.run setup p.pipeline.cancelled t p.state).state)
    (Production.run setup p.pipeline.cancelled t p.state).reviews
    (hp.marked.pop hp.claims.ticketed hpop)
  have hwaiting {n : Coord} (hn : p.state.isUnfinished n = true)
      (hne : .review n ≠ t) : .review n ∈ queue.tasks :=
    TaskQueue.mem_tasks_pop hp.claims.ticketed hpop (hp.waiting n hn) hne
  refine ⟨hclaims, hp.opened, ?_, hmarked, ?_⟩
  · exact hripened.aged hp.aged
  intro n hn
  have hran := StreamState.isUnfinished_of_near hnote.sameStock.near hn
  cases t with
  | review c =>
    have hfinish' : ∀ chunk, p.state.isFinishable c = true →
        p.state.chunk? c = some chunk →
        (setup.generator.finish chunk).2 = .ok .complete := by
      intro chunk hfinishable hchunk
      refine hfinish c chunk ?_ hchunk
      simp only [Provider.finishing?, hpop, hfinishable, if_true]
    obtain ⟨hbefore, hagain⟩ := review c p.state hfinish' n hran
    by_cases hnc : n = c
    · subst hnc
      exact hreviews hopen ⟨n, n⟩ (hagain rfl) n (Box.contains_singleton n)
    · exact hkept _ (hwaiting hbefore fun heq => hnc (Task.review.inj heq))
  | load c =>
    rcases produce setup _ _ p.state n hran with hbefore | ⟨b, hb, hin⟩
    · exact hkept _ (hwaiting hbefore (by simp))
    · exact hreviews hopen b hb n hin
  | generate c =>
    rcases produce setup _ _ p.state n hran with hbefore | ⟨b, hb, hin⟩
    · exact hkept _ (hwaiting hbefore (by simp))
    · exact hreviews hopen b hb n hin

theorem update (hp : Reviewed p) (positions : ObserverId → Option Coord) :
    Reviewed (p.update setup positions) := by
  have hfollow := hp.asks (Provider.asks_publishing setup positions p)
  have hclaims : Claims (p.update setup positions) := hp.claims.update positions
  have hdrain := Published.drainSignals (p.publishing setup positions)
  have hswept := (Eviction.sweep_spec setup (p.sweeping setup positions)).1
  have hnotify := sameStock_compact setup (p.sweeping setup positions)
  rw [Provider.update_eq] at hclaims ⊢
  refine hfollow.modifyState
    (f := fun s => Provider.compact setup (Provider.drainSignals s))
    hclaims hfollow.aged.compact ?_
  intro c hc
  have hswept' := StreamState.isUnfinished_of_near hnotify.near hc
  exact StreamState.isUnfinished_of_near hdrain.near
    (StreamState.isUnfinished_of_swept hswept hswept')

theorem start {world : String} {workers : Nat} {far : σ}
    (hstart : Provider.start setup world workers far = .ok p) :
    Reviewed p := by
  obtain ⟨hnote, hqueue, hopened, -⟩ := Provider.start_spec hstart
  refine ⟨Claims.start hstart, hopened, (Steady.start hstart).aged, ?_, ?_⟩
  · rw [hqueue]
    exact TaskQueue.marked_empty
  · intro c hc
    have hnone := StreamState.isUnfinished_of_near hnote.sameStock.near hc
    cases hnone

end Reviewed

/-! ## Runs -/

namespace Session

variable {s : Session σ} {acts : List Act} {a : Act}

/-- Whatever the worker finishes in the course of a run becomes complete. -/
def CompletesAll (setup : Setup σ) (acts : List Act) (s : Session σ) : Prop :=
  ∀ acts', acts' ++ [.work] <+: acts → ∀ c chunk,
    (s.run setup acts').provider.finishing? = some c →
    (s.run setup acts').provider.state.chunk? c = some chunk →
    (setup.generator.finish chunk).2 = .ok .complete

theorem completesAll_of_finishAtOnce
    (h : setup.generator.finish = Generator.finishAtOnce) (acts : List Act)
    (s : Session σ) : s.CompletesAll setup acts := by
  intro acts' _ c chunk _ _
  rw [h]
  rfl

end Session

namespace Reviewed

variable {s : Session σ} {acts : List Act} {a : Act}

theorem step (hs : Reviewed s.provider) (ha : a.isTame = true)
    (hfinish : a = .work → ∀ c chunk, s.provider.finishing? = some c →
      s.provider.state.chunk? c = some chunk →
      (setup.generator.finish chunk).2 = .ok .complete) :
    Reviewed (s.step setup a).provider := by
  by_cases hwork : a = .work
  · subst hwork
    show Reviewed ((s.provider.work? setup).getD s.provider)
    cases h : s.provider.work? setup with
    | none => exact hs
    | some q => exact hs.work (hfinish rfl) h
  by_cases hcall : a.isCall = true
  · exact hs.asks (Session.asks_step setup hcall hwork s)
  have hclaims : Claims (s.step setup a).provider := hs.claims.step a
  by_cases hhandling : a.isHandling = true
  · obtain ⟨t, ht, h⟩ :=
      Session.handled_step_of_isTame setup hhandling ha hs.aged
    rw [h] at hclaims ⊢
    refine hs.modifyState hclaims (hs.aged.of_handled ht) ?_
    intro c hc
    apply StreamState.isUnfinished_of_le (ht.isResidentComplete c).symm _ hc
    exact fun n _ hn => (ht.isResident n).symm.trans hn
  cases a with
  | update => exact hs.update s.position
  | markReady c =>
    exact hs.modifyState hclaims (hs.aged.of_near rfl rfl) fun n =>
      StreamState.isUnfinished_of_near rfl
  | dispose => cases ha
  | _ => simp [Act.isCall, Act.isHandling] at hcall hhandling

theorem run (hs : Reviewed s.provider) (hacts : ∀ a ∈ acts, a.isTame = true)
    (hfinish : s.CompletesAll setup acts) :
    Reviewed (s.run setup acts).provider := by
  apply Session.run_induction (P := fun _ t => Reviewed t.provider) hs
  intro acts' a hinit hbefore
  refine hbefore.step (hacts a (hinit.subset List.mem_concat_self)) ?_
  rintro rfl
  exact hfinish acts' hinit

end Reviewed

/-- In every run that goes on, in which nobody outside changes a completion tag
and whatever is finished becomes complete, a review waits for every incomplete
chunk with a resident neighbourhood.  Hence when no task waits, ready is who has
a resident neighbourhood in which each chunk is complete or misses none of its
own neighbours. -/
theorem unfinished_awaits_review {p : Provider σ} {world : String}
    {workers : Nat} {far : σ}
    (hstart : Provider.start setup world workers far = .ok p)
    {acts : List Act} (hacts : ∀ a ∈ acts, a.isTame = true)
    (hfinish : (Session.ofProvider p).CompletesAll setup acts) :
    let s := (Session.ofProvider p).run setup acts
    (∀ c, s.provider.state.isResidentComplete c = false →
        (∀ n, (Box.neighborhood c).contains n = true →
          s.provider.state.isResident n = true) →
        .review c ∈ s.provider.pipeline.queue.tasks)
      ∧ (s.provider.pipeline.queue.tasks = [] → ∀ c,
        s.provider.state.isReady c = true ↔
          ∀ n, (Box.neighborhood c).contains n = true →
            s.provider.state.isResident n = true
              ∧ (s.provider.state.isResidentComplete n = true
                ∨ ∀ m, (Box.neighborhood n).contains m = true →
                  s.provider.state.isResident m = true)) := by
  intro s
  have hs : Reviewed s.provider :=
    Reviewed.run (s := .ofProvider p) (Reviewed.start hstart) hacts hfinish
  have hwaiting (c : Coord)
      (hincomplete : s.provider.state.isResidentComplete c = false)
      (hsurrounded : ∀ n, (Box.neighborhood c).contains n = true →
        s.provider.state.isResident n = true) :
      .review c ∈ s.provider.pipeline.queue.tasks :=
    hs.waiting c (StreamState.isUnfinished_iff.2 ⟨hincomplete, hsurrounded⟩)
  refine ⟨hwaiting, ?_⟩
  intro hidle c
  rw [StreamState.isReady_iff]
  constructor
  · intro hcomplete n hn
    have hn' := hcomplete n hn
    exact ⟨StreamState.isResident_of_complete hn', .inl hn'⟩
  · intro hneighbors n hn
    rcases (hneighbors n hn).2 with hcomplete | hsurrounded
    · exact hcomplete
    · by_contra hincomplete
      have hreview := hwaiting n (by simpa using hincomplete) hsurrounded
      rw [hidle] at hreview
      cases hreview

/-! ## A rough world -/

/-- The generator of empty chunks that have to be finished. -/
def Generator.rough : Generator where
  generate c := .ok ⟨c, .incomplete, false, none⟩
  finish := finishAtOnce

def Setup.rough (budget : Nat) : Setup (Table Coord Chunk) :=
  { Setup.plain budget with generator := .rough }

theorem start_rough (budget : Nat) :
    Provider.start (Setup.rough budget) "plain" 1 [] = .ok (.plain budget) :=
  rfl

/-- A box is requested and the worker goes on. -/
def Act.make (b : Box) (n : Nat) : List Act :=
  .requestBox b :: List.replicate n .work

/-- When nine chunks at the corner have been made and no task waits, the corner
is ready. -/
theorem unfinished_awaits_review_of_rough :
    let acts := Act.make ⟨⟨2147483645, 0, 2147483645⟩, .corner⟩ 34
    let s := (Session.ofProvider (.plain 100)).run (Setup.rough 100) acts
    s.provider.pipeline.queue.tasks = []
      ∧ s.provider.state.isReady .corner = true := by
  intro acts s
  have hacts : ∀ a ∈ acts, a.isTame = true := by decide +kernel
  have hready := unfinished_awaits_review (start_rough 100) hacts
    (Session.completesAll_of_finishAtOnce rfl _ _)
  have hs : s = (Session.ofProvider (.plain 100)).run (Setup.rough 100) acts :=
    rfl
  simp only [← hs] at hready
  have hidle : s.provider.pipeline.queue.tasks = [] := by decide +kernel
  have hresident : ∀ n ∈ (Box.neighborhood .corner).toList,
      s.provider.state.isResident n = true
        ∧ ∀ m ∈ (Box.neighborhood n).toList,
          s.provider.state.isResident m = true := by
    decide +kernel
  refine ⟨hidle, ?_⟩
  apply (hready.2 hidle .corner).2
  intro n hn
  obtain ⟨hn', hneighbors⟩ := hresident n (Box.mem_toList_iff.2 hn)
  exact ⟨hn', .inr fun m hm => hneighbors m (Box.mem_toList_iff.2 hm)⟩

/-- When only the neighbourhood of the corner has been made, its chunks are
resident and no task waits, but the corner is not ready: its neighbours miss
neighbours of their own. -/
theorem resident_neighborhood_not_ready :
    let acts := Act.make (Box.neighborhood .corner) 13
    let s := (Session.ofProvider (.plain 100)).run (Setup.rough 100) acts
    (∀ a ∈ acts, a.isTame = true)
      ∧ (Session.ofProvider (.plain 100)).CompletesAll (Setup.rough 100) acts
      ∧ s.provider.pipeline.queue.tasks = []
      ∧ ¬ (s.provider.state.isReady .corner = true ↔
        ∀ n, (Box.neighborhood .corner).contains n = true →
          s.provider.state.isResident n = true) := by
  intro acts s
  have hresident : ∀ n ∈ (Box.neighborhood .corner).toList,
      s.provider.state.isResident n = true := by
    decide +kernel
  have hwaits : s.provider.state.isReady .corner = false := by decide +kernel
  refine ⟨by decide, Session.completesAll_of_finishAtOnce rfl _ _,
    by decide +kernel, ?_⟩
  intro hready
  have hall := hready.2 fun n hn => hresident n (Box.mem_toList_iff.2 hn)
  rw [hwaits] at hall
  cases hall

end ChunkStream
