import ChunkStream.Proofs.Streaming.Claims
import ChunkStream.Proofs.Work.Nearest

/-!
# The ranking of a provider's tasks

A provider ranks its tasks by the centers that it has published, and every
publication of other centers comes with a new epoch.  So the scores in its queue
can be out of date, but never without the queue noticing when it next looks, and
the worker always takes the nearest task by the centers of the moment.
-/

namespace ChunkStream

variable {σ : Type} {setup : Setup σ}

/-! ## The priority of a state -/

namespace StreamState

/-- A priority that the state may have had before or has now: it is one of an
earlier epoch, or its centers are those of the state. -/
def Knows (s : StreamState σ) (x : Priority) : Prop :=
  x.epoch ≤ s.epoch ∧ (x.epoch = s.epoch → x.centers = s.centers)

theorem knows_priority (s : StreamState σ) :
    s.Knows (Production.priority s) :=
  ⟨Nat.le_refl _, fun _ => rfl⟩

end StreamState

namespace Recentered

variable {s t : StreamState σ}

theorem of_eq (hepoch : t.epoch = s.epoch) (hcenters : t.centers = s.centers) :
    Recentered s t :=
  .inr ⟨hepoch, hcenters⟩

theorem knows (h : Recentered s t) {x : Priority} (hx : s.Knows x) :
    t.Knows x := by
  obtain ⟨hle, hcenters⟩ := hx
  rcases h with h | ⟨hepoch, hsame⟩
  · refine ⟨Nat.le_of_lt (Nat.lt_of_le_of_lt hle h), fun heq => ?_⟩
    omega
  · rw [StreamState.Knows, hepoch, hsame]
    exact ⟨hle, hcenters⟩

theorem publishReady (c : Coord) (s : StreamState σ) :
    Recentered s (Provider.publishReady c s) := by
  unfold Provider.publishReady
  simp only
  split
  · have htold := SameStock.updateRegions (Interest.chunkReady c)
      (s.record (.sent (.ready c)))
    exact htold.recentered
  · exact of_eq rfl rfl

theorem drainSignals (s : StreamState σ) :
    Recentered s (Provider.drainSignals s) := by
  have hfold (cs : List Coord) (t : StreamState σ) :
      Recentered t (cs.foldl (fun t c => Provider.publishReady c t) t) := by
    induction cs generalizing t with
    | nil => exact .refl t
    | cons c cs ih => exact (publishReady c t).trans (ih _)
  exact (of_eq rfl rfl).trans (hfold s.signals { s with signals := [] })

theorem evict (c : Coord) (s : StreamState σ) :
    Recentered s (Eviction.evict setup c s).2 := by
  rcases Eviction.evict_spec setup c s with
    ⟨t, hnote, hevict, -⟩ | ⟨r, t, -, -, -, -, ht, hevict⟩
  · rw [hevict]
    exact hnote.sameStock.recentered
  · rw [hevict, ht]
    exact of_eq rfl rfl

theorem compact (s : StreamState σ) :
    Recentered s (Provider.compact setup s) := by
  have hswept : Recentered s (sweptState setup s) :=
    Eviction.sweep_preserve (P := Recentered s) (fun _ _ _ h => h)
      (fun t c h => h.trans (evict c t)) (.refl s)
  exact hswept.trans (sameStock_compact setup s).recentered

end Recentered

namespace Production

variable {s t : StreamState σ}

theorem priority_of_annotated (h : Annotated s t) :
    priority t = priority s := by
  rw [h.frame]
  rfl

theorem priority_announceIfComplete (c : Coord) (s : StreamState σ) :
    priority (announceIfComplete c s) = priority s := by
  unfold announceIfComplete
  split
  · rw [(Announcing.announceAround c s).frame]
    rfl
  · rfl

theorem priority_settleChunk (t : Task) (chunk : Chunk) (s : StreamState σ) :
    priority (settleChunk t chunk s) = priority s := by
  unfold settleChunk StreamState.install
  split <;> rfl

/-- No task moves the centers. -/
theorem priority_run (setup : Setup σ) (cancelled : Bool) (t : Task)
    (s : StreamState σ) :
    priority (run setup cancelled t s).state = priority s := by
  cases hreview : t.isReview with
  | false =>
    rw [run_production cancelled hreview]
    rcases produce_cases setup cancelled t s with
      ⟨u, failure, hnote, -, h⟩ | ⟨u, chunk, hnote, -, -, h⟩
    · rw [h]
      have hsame := priority_of_annotated hnote
      exact hsame
    · rw [h]
      calc priority (announceIfComplete t.coord (settleChunk t chunk u))
          = priority (settleChunk t chunk u) :=
            priority_announceIfComplete t.coord _
        _ = priority u := priority_settleChunk t chunk u
        _ = priority s := priority_of_annotated hnote
  | true =>
    obtain ⟨c, rfl⟩ := Task.exists_review hreview
    have hreviewed : run setup cancelled (.review c) s = review setup c s := rfl
    rw [hreviewed]
    rcases review_cases setup c s with
      ⟨reviews, -, h⟩ | h | ⟨chunk, -, -, -, -, u, hnote, hfinish⟩
    · rw [h]
    · rw [h]
      exact priority_announceIfComplete c s
    · have hsame := priority_of_annotated hnote
      rcases hfinish with ⟨next, completion, -, h⟩
        | ⟨next, cause, failure, -, h⟩
      · rw [h]
        exact (priority_announceIfComplete c _).trans hsame
      · rw [h]
        exact hsame

end Production

/-! ## The invariant -/

/-- The marks of the queue and its scores are right, and what it knows of the
centers it has from the provider. -/
structure Ranked (p : Provider σ) : Prop where
  marked : p.pipeline.queue.Marked
  scored : p.pipeline.queue.Scored
  informed : p.pipeline.queue.Informed p.state.Knows

namespace Ranked

variable {p q : Provider σ}

theorem modifyState (hp : Ranked p) {f : StreamState σ → StreamState σ}
    (h : Recentered p.state (f p.state)) : Ranked (p.modifyState f) :=
  ⟨hp.marked, hp.scored, hp.informed.mono fun _ => h.knows⟩

theorem requestChunk (hp : Ranked p) (hclaims : Claims p) (c : Coord) :
    Ranked (p.requestChunk setup c) := by
  rcases Provider.requestChunk_cases setup hclaims.closed c with
    ⟨-, h⟩ | ⟨hopen, -, -, h⟩
  · rwa [h]
  · rw [h]
    have htask : (Provider.taskFor setup c p.state).isReview = false :=
      Provider.isReview_taskFor c p.state
    have hpush := TaskQueue.push_production
      (p := Production.priority p.state) (hclaims.closed.trans hopen) htask
    have hqueue : (p.claim setup c).pipeline.queue
        = (p.pipeline.queue.push (Production.priority p.state)
            (Provider.taskFor setup c p.state)).1 := by
      rw [hpush]
      rfl
    refine ⟨?_, ?_, ?_⟩
    · rw [hqueue]
      exact hp.marked.push
    · rw [hqueue]
      exact hp.scored.push
    · rw [hqueue]
      exact hp.informed.push p.state.knows_priority

theorem work (hp : Ranked p) (hclaims : Claims p)
    (h : p.work? setup = some q) : Ranked q := by
  obtain ⟨t, queue, u, completed, failed, hpop, hnote, rfl⟩ :=
    Provider.work?_spec h
  have hrun := Production.priority_run setup p.pipeline.cancelled t p.state
  have hsame : Production.priority u = Production.priority p.state :=
    (Production.priority_of_annotated hnote).trans hrun
  have hmoved : Recentered p.state u :=
    .of_eq (congrArg Priority.epoch hsame) (congrArg Priority.centers hsame)
  have hknown := hp.informed.pop p.state.knows_priority hpop
  refine ⟨?_, ?_, ?_⟩
  · exact (Pipeline.marked_followUp _
      (hp.marked.pop hclaims.ticketed hpop)).1
  · exact Pipeline.followUp_preserve (fun _ _ hq => hq.push)
      (hp.scored.pop hpop) _
  · refine TaskQueue.Informed.mono (P := p.state.Knows) ?_ fun _ => hmoved.knows
    refine Pipeline.followUp_preserve (fun _ _ hq => hq.push ?_) hknown _
    rw [hrun]
    exact p.state.knows_priority

theorem advance (hp : Ranked p) (hclaims : Claims p)
    (h : Provider.Advance setup p q) : Ranked q := by
  cases h with
  | beside h => exact hp.modifyState h.recentered
  | request c => exact hp.requestChunk hclaims c
  | work h => exact hp.work hclaims h

theorem advances (hp : Ranked p) (hclaims : Claims p)
    (h : Provider.Advances setup p q) : Ranked q :=
  hclaims.preserve h (fun _ _ hq hstep hr => hr.advance hq hstep) hp

theorem update (hp : Ranked p) (hclaims : Claims p)
    (positions : ObserverId → Option Coord) :
    Ranked (p.update setup positions) := by
  have hfollow := hp.advances hclaims
    (Provider.advances_publishing setup positions p)
  rw [Provider.update_eq]
  exact hfollow.modifyState
    (f := fun s => Provider.compact setup (Provider.drainSignals s))
    ((Recentered.drainSignals _).trans (Recentered.compact _))

theorem start {world : String} {workers : Nat} {far : σ}
    (h : Provider.start setup world workers far = .ok p) : Ranked p := by
  obtain ⟨-, hqueue, -⟩ := Provider.start_spec h
  constructor
  · rw [hqueue]
    exact TaskQueue.marked_empty
  · rw [hqueue]
    exact TaskQueue.scored_empty
  · rw [hqueue]
    exact TaskQueue.informed_empty _

theorem step {s : Session σ} {a : Act} (hs : Ranked s.provider)
    (hclaims : Claims s.provider) (ha : a ≠ .dispose) :
    Ranked (s.step setup a).provider := by
  by_cases hcall : a.isCall = true
  · exact hs.advances hclaims (Session.advances_step setup hcall s)
  by_cases hhandling : a.isHandling = true
  · obtain ⟨t, ht, h⟩ := Session.handled_step setup hhandling s
    rw [h]
    refine hs.modifyState ?_
    rw [ht.frame]
    exact .of_eq rfl rfl
  cases a with
  | update => exact hs.update hclaims s.position
  | markReady c => exact hs.modifyState (.of_eq rfl rfl)
  | dispose => exact absurd rfl ha
  | _ => simp [Act.isCall, Act.isHandling] at hcall hhandling

/-- Along every run that goes on, claims and ranking are sound. -/
theorem run {s : Session σ} {acts : List Act} (hs : Ranked s.provider)
    (hclaims : Claims s.provider) (hacts : ∀ a ∈ acts, a ≠ .dispose) :
    Ranked (s.run setup acts).provider
      ∧ Claims (s.run setup acts).provider := by
  apply Session.run_preserve (P := fun t => Ranked t.provider
    ∧ Claims t.provider) ⟨hs, hclaims⟩
  rintro a ha t ⟨hranked, hclaims⟩
  exact ⟨hranked.step hclaims (hacts a ha), hclaims.step a⟩

end Ranked

end ChunkStream
