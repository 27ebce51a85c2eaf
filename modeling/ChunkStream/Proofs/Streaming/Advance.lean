import ChunkStream.Proofs.Streaming.Worker
import Mathlib.Logic.Relation

/-!
# What acts are made of

Whatever happens to a provider between two sweeps is a chain of three
elementary operations: something beside the stock of chunks, the request of one
chunk, and a step of the worker.  An invariant of the three is an invariant of
every act that does not sweep.  The worker steps only when it is told to, so the
chains of all other acts are made of the first two.
-/

namespace ChunkStream.Provider

variable {σ : Type} {setup : Setup σ} {p q : Provider σ}

/-- An elementary operation of a caller. -/
inductive Ask (setup : Setup σ) : Provider σ → Provider σ → Prop
  | beside {p : Provider σ} {f : StreamState σ → StreamState σ}
      (h : SameStock p.state (f p.state)) : Ask setup p (p.modifyState f)
  | request (p : Provider σ) (c : Coord) : Ask setup p (p.requestChunk setup c)

/-- An elementary operation between two sweeps. -/
inductive Advance (setup : Setup σ) : Provider σ → Provider σ → Prop
  | beside {p : Provider σ} {f : StreamState σ → StreamState σ}
      (h : SameStock p.state (f p.state)) : Advance setup p (p.modifyState f)
  | request (p : Provider σ) (c : Coord) :
      Advance setup p (p.requestChunk setup c)
  | work {p q : Provider σ} (h : p.work? setup = some q) : Advance setup p q

/-- A chain of elementary operations of callers. -/
abbrev Asks (setup : Setup σ) : Provider σ → Provider σ → Prop :=
  Relation.ReflTransGen (Ask setup)

/-- A chain of elementary operations. -/
abbrev Advances (setup : Setup σ) : Provider σ → Provider σ → Prop :=
  Relation.ReflTransGen (Advance setup)

theorem Ask.advance (h : Ask setup p q) : Advance setup p q := by
  cases h with
  | beside h => exact .beside h
  | request c => exact .request p c

theorem Asks.advances (h : Asks setup p q) : Advances setup p q :=
  h.lift id fun _ _ => Ask.advance

/-- What each operation keeps, a chain keeps. -/
theorem preserve_of_chain {R : Provider σ → Provider σ → Prop}
    {P : Provider σ → Prop} (hP : ∀ p q, R p q → P p → P q)
    (h : Relation.ReflTransGen R p q) (hp : P p) : P q := by
  induction h with
  | refl => exact hp
  | tail _ hstep ih => exact hP _ _ hstep ih

theorem Asks.preserve {P : Provider σ → Prop}
    (hP : ∀ p q, Ask setup p q → P p → P q)
    (h : Asks setup p q) (hp : P p) : P q :=
  preserve_of_chain hP h hp

theorem Asks.foldl {α : Type} {f : Provider σ → α → Provider σ}
    (hf : ∀ p a, Asks setup p (f p a)) (as : List α) (p : Provider σ) :
    Asks setup p (as.foldl f p) :=
  List.foldlRecOn as f .refl fun q hq a _ => hq.trans (hf q a)

theorem Advances.preserve {P : Provider σ → Prop}
    (hP : ∀ p q, Advance setup p q → P p → P q)
    (h : Advances setup p q) (hp : P p) : P q :=
  preserve_of_chain hP h hp

/-! ## Requests -/

/-- The task that gets a coordinate. -/
def taskFor (setup : Setup σ) (c : Coord) (s : StreamState σ) : Task :=
  if setup.tier.contains c s.far then .load c else .generate c

/-- The provider with a coordinate claimed and its task queued. -/
def claim (setup : Setup σ) (c : Coord) (p : Provider σ) : Provider σ :=
  { p with
    pipeline := { p.pipeline with
      state := { p.state with preparing := c :: p.state.preparing }
      queue := p.pipeline.queue.enqueue (Production.priority p.state)
        (taskFor setup c p.state) } }

theorem tasks_claim (c : Coord) (p : Provider σ) :
    (p.claim setup c).pipeline.queue.tasks
      = taskFor setup c p.state :: p.pipeline.queue.tasks :=
  TaskQueue.tasks_enqueue

@[simp]
theorem isReview_taskFor (c : Coord) (s : StreamState σ) :
    (taskFor setup c s).isReview = false := by
  unfold taskFor
  split <;> rfl

@[simp]
theorem coord_taskFor (c : Coord) (s : StreamState σ) :
    (taskFor setup c s).coord = c := by
  unfold taskFor
  split <;> rfl

/-- A chunk is loaded if the far tier has it, and else it is generated. -/
theorem load_eq_taskFor_iff {c d : Coord} {s : StreamState σ} :
    .load d = taskFor setup c s
      ↔ d = c ∧ setup.tier.contains c s.far = true := by
  unfold taskFor
  split
  · next h => simp [h]
  · next h => simp [h]

theorem generate_eq_taskFor_iff {c d : Coord} {s : StreamState σ} :
    .generate d = taskFor setup c s
      ↔ d = c ∧ setup.tier.contains c s.far = false := by
  unfold taskFor
  split
  · next h => simp [h]
  · next h => simp [h]

/-- A request changes nothing after the end of production, nor for a chunk that
is resident or claimed.  Else it claims. -/
theorem request_eq (hclosed : p.pipeline.queue.closed = p.pipeline.stopped)
    (c : Coord) :
    p.pipeline.request (Production.handler setup) c =
      if p.pipeline.stopped = true ∨ p.state.isResident c = true
        ∨ c ∈ p.state.preparing
      then (false, p.pipeline) else (true, (p.claim setup c).pipeline) := by
  have hprepare : (Production.handler setup).prepare
    = Production.prepare setup := rfl
  unfold Pipeline.request
  by_cases hstopped : p.pipeline.stopped = true
  · rw [if_pos hstopped, if_pos (.inl hstopped)]
  · rw [if_neg hstopped, hprepare]
    by_cases hheld : p.state.isResident c = true ∨ c ∈ p.state.preparing
    · have hnone : Production.prepare setup c p.pipeline.state
          = (none, p.pipeline.state) := by
        unfold Production.prepare
        exact if_pos hheld
      rw [if_pos (.inr hheld), hnone]
    · have hsome : Production.prepare setup c p.pipeline.state
          = (some (taskFor setup c p.state),
            { p.state with preparing := c :: p.state.preparing }) := by
        unfold Production.prepare
        exact if_neg hheld
      have hopen : p.pipeline.queue.closed
        = false := by simpa [hstopped] using hclosed
      rw [if_neg (by simp [hstopped, hheld]), hsome]
      simp only [Pipeline.submit]
      rw [TaskQueue.push_production hopen (isReview_taskFor c p.state)]
      rfl

theorem requestChunk_cases (setup : Setup σ)
    (hclosed : p.pipeline.queue.closed = p.pipeline.stopped) (c : Coord) :
    ((p.pipeline.stopped = true ∨ p.state.isResident c = true
      ∨ c ∈ p.state.preparing)
        ∧ p.requestChunk setup c = p)
      ∨ (p.pipeline.stopped = false ∧ p.state.isResident c = false
        ∧ c ∉ p.state.preparing
        ∧ p.requestChunk setup c = p.claim setup c) := by
  unfold requestChunk
  rw [request_eq hclosed]
  by_cases h : p.pipeline.stopped = true ∨ p.state.isResident c = true
    ∨ c ∈ p.state.preparing
  · exact .inl ⟨h, by rw [if_pos h]⟩
  · refine .inr ?_
    simp only [not_or, Bool.not_eq_true] at h
    refine ⟨h.1, h.2.1, h.2.2, ?_⟩
    rw [if_neg (by simp [h])]
    rfl

theorem requestEach_snd (cs : List Coord) (p : Provider σ) (n : Nat) :
    { p with
      pipeline := (cs.foldl
        (fun acc c =>
          let (claimed, q) :=
            Pipeline.request (Production.handler setup) c acc.2
          (if claimed then acc.1 + 1 else acc.1, q)) (n, p.pipeline)).2 }
      = cs.foldl (fun p c => p.requestChunk setup c) p := by
  induction cs generalizing p n with
  | nil => rfl
  | cons c cs ih => exact ih (p.requestChunk setup c) _

/-- A box is requested coordinate by coordinate. -/
theorem requestBox_eq (b : Box) (p : Provider σ) :
    p.requestBox setup b = b.toList.foldl
      (fun p c => p.requestChunk setup c) p :=
  requestEach_snd b.toList p 0

theorem asks_requestBox (b : Box) (p : Provider σ) :
    Asks setup p (p.requestBox setup b) := by
  rw [requestBox_eq]
  exact Asks.foldl (fun p c => .single (.request p c)) _ p

/-! ## Observers -/

theorem asks_modifyState {f : StreamState σ → StreamState σ}
    (hf : ∀ s, SameStock s (f s)) (p : Provider σ) : Asks setup p
    (p.modifyState f) :=
  .single (.beside (hf p.state))

theorem asks_addRelevance (id : ObserverId) (position : Option Coord)
    (distance : UInt32) (listening : Bool) (p : Provider σ) :
    Asks setup p
      (p.addRelevance setup id position distance listening).2 := by
  unfold addRelevance
  split
  · exact asks_modifyState (SameStock.updateRegion id _) p
  · cases position with
    | none => exact asks_modifyState (SameStock.record rfl) p
    | some c =>
      refine (asks_modifyState ?_ p).trans
        ((asks_requestBox _ _).trans
          (asks_modifyState (SameStock.updateRegion id _) _))
      intro s
      exact ((SameStock.regions s _).trans (SameStock.publishCenters _)).trans
        (SameStock.reportReady id _ _)

theorem asks_updateRelevance (id : ObserverId) (distance : UInt32)
    (p : Provider σ) : Asks setup p (p.updateRelevance id distance) :=
  asks_modifyState (SameStock.updateRegion id _) p

theorem asks_removeRelevance (id : ObserverId) (p : Provider σ) :
    Asks setup p (p.removeRelevance id) := by
  unfold removeRelevance
  split
  · exact asks_modifyState
      (fun s => (SameStock.regions s _).trans (SameStock.publishCenters _)) p
  · exact .refl

theorem asks_followObserver (setup : Setup σ) (id : ObserverId)
    (position : Option Coord) (p : Provider σ) :
    Asks setup p (p.followObserver setup id position) := by
  have hfollow : Asks setup
      p (p.modifyState (·.updateRegion id (Interest.follow position))) :=
    asks_modifyState (SameStock.updateRegion id _) p
  unfold followObserver
  simp only
  split
  · exact hfollow
  · next i hi =>
    split
    · exact hfollow
    · have hreport (cs : List Coord) (q : Provider σ) :
          Asks setup q (q.modifyState (reportReady id cs)) :=
        asks_modifyState (SameStock.reportReady id cs) q
      have hclear (q : Provider σ) :
          Asks setup q
              (q.modifyState (·.updateRegion id fun i =>
              (i.setUpToDate, []))) :=
        asks_modifyState (SameStock.updateRegion id _) q
      refine hfollow.trans ((hreport i.needed _).trans ?_)
      split
      · exact (asks_requestBox _ _).trans (hclear _)
      · exact hclear _

theorem asks_followObservers (positions : ObserverId → Option Coord)
    (p : Provider σ) : Asks setup p (p.followObservers setup positions) :=
  Asks.foldl (fun p id => asks_followObserver setup id (positions id) p)
    _ p

theorem advances_work (p : Provider σ) : Advances setup p
    ((p.work? setup).getD p) := by
  cases h : p.work? setup with
  | none => exact .refl
  | some q => exact .single (.work h)

/-! ## The stages of an update -/

/-- The state in which an update publishes the waiting signals. -/
def publishing (setup : Setup σ) (positions : ObserverId → Option Coord)
    (p : Provider σ) : StreamState σ :=
  (p.followObservers setup positions).state.publishCenters

/-- The state in which an update reaches its sweep. -/
def sweeping (setup : Setup σ) (positions : ObserverId → Option Coord)
    (p : Provider σ) : StreamState σ :=
  drainSignals (p.publishing setup positions)

theorem update_eq (positions : ObserverId → Option Coord) (p : Provider σ) :
    p.update setup positions
      = (p.followObservers setup positions).modifyState
          fun _ => compact setup (p.sweeping setup positions) := rfl

theorem asks_publishing (setup : Setup σ)
    (positions : ObserverId → Option Coord) (p : Provider σ) :
    Asks setup p
      ((p.followObservers setup positions).modifyState fun _ =>
          p.publishing setup positions) :=
  (asks_followObservers positions p).trans
    (.single (.beside (SameStock.publishCenters _)))

theorem advances_publishing (setup : Setup σ)
    (positions : ObserverId → Option Coord) (p : Provider σ) :
    Advances setup p
      ((p.followObservers setup positions).modifyState fun _ =>
          p.publishing setup positions) :=
  (asks_publishing setup positions p).advances

end ChunkStream.Provider
