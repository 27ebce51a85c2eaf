import ChunkStream.Proofs.Streaming.Lifetime

/-!
# A far tier in several hands

Whether a coordinate is loaded or generated is asked of the far tier when its
task is queued, and never again for that task.  Between two requests the answer
may change.  The provider itself can only bring it from no to yes: its sweeps
put chunks, and where each lies under its own coordinate they put no chunk at a
coordinate that is not resident.  But the far tier may have other users, who put
chunks and take them away as they like.

`Shared` adds what they do to what can happen to a session.  No step of theirs
touches a claim or a task, so a production that waits is still the one that the
far tier asked for when it was queued.
-/

namespace ChunkStream

variable {σ : Type} {setup : Setup σ} {changes : σ → σ → Prop}
  {p q : Provider σ} {s t u : Session σ} {c : Coord} {task : Task}

/-! ## What the far tier contains -/

/-- The tier does not lose a coordinate, neither by a write that it accepts nor
through others. -/
structure FarTier.Lasting (tier : FarTier σ) (changes : σ → σ → Prop)
    (c : Coord) : Prop where
  put : ∀ chunk far next, tier.put chunk far = .ok next →
    tier.contains c far = true → tier.contains c next = true
  others : ∀ far next, changes far next →
    tier.contains c far = true → tier.contains c next = true

/-- Only an accepted write of a chunk at the coordinate matters to whether the
tier contains the coordinate, and then it does. -/
structure FarTier.PutsOnly (tier : FarTier σ) (changes : σ → σ → Prop)
    (c : Coord) : Prop where
  put : ∀ chunk far next, tier.put chunk far = .ok next →
    tier.contains c next = (decide (c = chunk.coord) || tier.contains c far)
  others : ∀ far next, changes far next →
    tier.contains c next = tier.contains c far

theorem FarStore.contains_of_put {chunk : Chunk} {far next : FarStore}
    (hput : tier.put chunk far = .ok next) (c : Coord) :
    tier.contains c next
      = (decide (c = chunk.coord) || tier.contains c far) := by
  obtain ⟨b, htook⟩ := took_of_put hput
  have hentry := htook.get?_entries c
  show (Table.get? next.entries c).isSome
    = (decide (c = chunk.coord) || (Table.get? far.entries c).isSome)
  rw [hentry]
  by_cases hc : chunk.coord = c
  · simp [hc]
  · simp [hc, Ne.symm hc]

/-- Two moments ask for the same task when the far tier gives the same
answer. -/
theorem Provider.taskFor_eq_iff {s t : StreamState σ} :
    taskFor setup c t = taskFor setup c s
      ↔ setup.tier.contains c t.far = setup.tier.contains c s.far := by
  rw [taskFor, taskFor]
  cases setup.tier.contains c t.far <;> cases setup.tier.contains c s.far <;>
    simp

namespace Provider

/-- What waits after some calls has waited before, or the far tier asked for it
before, for a coordinate that was absent. -/
theorem mem_tasks_of_asks (hp : Claims p) (h : Asks setup p q)
    (htask : task ∈ q.pipeline.queue.tasks) :
    task ∈ p.pipeline.queue.tasks
      ∨ task = taskFor setup task.coord p.state
        ∧ p.state.isResident task.coord = false := by
  induction h with
  | refl => exact .inl htask
  | @tail q r hchain hask ih =>
    have hasks : Asks setup p q := hchain
    have hq := hp.advances hasks.advances
    cases hask with
    | beside h => exact ih htask
    | request c =>
      rcases requestChunk_cases setup hq.closed c with
        ⟨-, h⟩ | ⟨-, habsent, -, h⟩
      · exact ih (h ▸ htask)
      · rw [h, tasks_claim] at htask
        rcases List.mem_cons.1 htask with rfl | htask
        · -- the calls before have left the stock and the far tier alone
          have hfar := (Undisturbed.advances hp hasks.advances).far
          rw [StreamState.isResident_congr (hasks.near_eq hp)] at habsent
          rw [coord_taskFor, taskFor, taskFor, hfar]
          exact .inr ⟨rfl, habsent⟩
        · exact ih htask

end Provider

namespace Session.Next

/-- Only an end that comes again leaves a provider open. -/
theorem provider_dispose_of_open (hs : Claims s.provider)
    (hopen : (s.step setup .dispose).provider.pipeline.stopped = false) :
    (s.step setup .dispose).provider = s.provider := by
  cases hdisposed : s.provider.disposed with
  | true => exact Provider.dispose_of_disposed hdisposed setup
  | false =>
    have hstopped := (hs.shutdown_spec setup).1
    have hdispose : (s.step setup .dispose).provider.pipeline.stopped
        = (s.provider.pipeline.shutdown
            (Production.handler setup)).stopped := by
      show (s.provider.dispose setup).pipeline.stopped = _
      simp only [Provider.dispose, hdisposed, Bool.false_eq_true, if_false]
      cases setup.obstacle <;> rfl
    rw [hdispose, hstopped] at hopen
    cases hopen

/-- The far tier changes by sweeps alone, and what they find resident was
resident before. -/
theorem far_eq (hs : Claims s.provider) (h : Next setup s t)
    (hopen : t.provider.pipeline.stopped = false) :
    t.provider.state.far = s.provider.state.far
      ∨ ∃ u, u.near = s.provider.state.near
        ∧ u.far = s.provider.state.far
        ∧ t.provider.state.far = (Eviction.sweep setup u).2.far := by
  cases h with
  | cancel => exact .inl rfl
  | reorder v h =>
    have hfar : v.far = s.provider.state.far := by rw [h.frame]
    exact .inl hfar
  | act a =>
    by_cases hdispose : a = .dispose
    · subst hdispose
      exact .inl (by rw [provider_dispose_of_open hs hopen])
    by_cases hupdate : a = .update
    · subst hupdate
      have hasks := Provider.asks_publishing setup s.position s.provider
      have hdrain := Published.drainSignals
        (s.provider.publishing setup s.position)
      refine .inr ⟨s.provider.sweeping setup s.position, ?_, ?_, ?_⟩
      · exact hdrain.near.trans (hasks.near_eq hs)
      · exact hdrain.far.trans
          (Provider.Undisturbed.advances hs hasks.advances).far
      · exact (sameStock_compact setup _).far
    · exact .inl (Provider.Undisturbed.step hs hupdate hdispose).far

/-- What the far tier does not lose it still contains. -/
theorem contains_of_contains (htier : setup.tier.Lasting changes c)
    (hs : Claims s.provider) (h : Next setup s t)
    (hopen : t.provider.pipeline.stopped = false)
    (hc : setup.tier.contains c s.provider.state.far = true) :
    setup.tier.contains c t.provider.state.far = true := by
  have hstored {far next : σ} (hstored : Stored setup far next)
      (hc : setup.tier.contains c far = true) :
      setup.tier.contains c next = true := by
    induction hstored with
    | refl => exact hc
    | tail _ hput ih =>
      obtain ⟨chunk, -, hput⟩ := hput
      exact htier.put _ _ _ hput ih
  rcases far_eq hs h hopen with hfar | ⟨u, -, hfar, hswept⟩
  · rw [hfar]
    exact hc
  · rw [hswept]
    exact hstored (Eviction.sweep_spec setup u).1.far (hfar ▸ hc)

/-- Where resident chunks are at their own coordinates, a sweep puts no
other. -/
theorem contains_sweep (htier : setup.tier.PutsOnly changes c)
    {u : StreamState σ}
    (hplaces : ∀ d chunk, u.chunk? d = some chunk → chunk.coord = d)
    (habsent : u.isResident c = false) :
    setup.tier.contains c (Eviction.sweep setup u).2.far
      = setup.tier.contains c u.far := by
  refine (Eviction.sweep_preserve
    (P := fun v => (∀ d chunk, v.chunk? d = some chunk →
        u.chunk? d = some chunk)
      ∧ setup.tier.contains c v.far = setup.tier.contains c u.far)
    (fun _ _ _ h => h) ?_ ⟨fun _ _ h => h, rfl⟩).2
  rintro v d ⟨hfewer, hsame⟩
  rcases Eviction.evict_cases setup d v with
    ⟨w, hnote, hevict⟩ | ⟨w, chunk, hchunk, hput, hswept, hevict⟩
  · have hstock := hnote.sameStock
    rw [hevict]
    refine ⟨fun e chunk he => hfewer e chunk ?_, by rw [hstock.far, hsame]⟩
    rwa [StreamState.chunk?_congr hstock.near] at he
  · rw [hevict]
    refine ⟨fun e chunk he => hfewer e chunk ?_, ?_⟩
    · rw [hswept.chunk?] at he
      split at he
      · cases he
      · exact he
    · have hplace := hplaces d chunk (hfewer d chunk hchunk)
      have hne : c ≠ chunk.coord := by
        intro heq
        rw [heq, hplace, StreamState.isResident_eq,
          hfewer d chunk hchunk] at habsent
        cases habsent
      rw [htier.put _ _ _ hput, hsame, decide_eq_false hne, Bool.false_or]

/-- There the far tier contains an absent coordinate as before. -/
theorem contains_eq (htier : setup.tier.PutsOnly changes c)
    (hs : Claims s.provider) (h : Next setup s t)
    (hopen : t.provider.pipeline.stopped = false)
    (hplaces : ∀ d chunk, s.provider.state.chunk? d = some chunk →
      chunk.coord = d)
    (habsent : s.provider.state.isResident c = false) :
    setup.tier.contains c t.provider.state.far
      = setup.tier.contains c s.provider.state.far := by
  rcases far_eq hs h hopen with hfar | ⟨u, hnear, hfar, hswept⟩
  · rw [hfar]
  · rw [hswept, contains_sweep htier ?_ ?_, hfar]
    · intro d chunk hd
      exact hplaces d chunk (StreamState.chunk?_congr hnear d ▸ hd)
    · rw [StreamState.isResident_congr hnear, habsent]

/-- A production that waits has waited before, or it is the task that the far
tier asked for at the beginning of the step, for a coordinate that was
absent. -/
theorem mem_tasks (hs : Claims s.provider) (h : Next setup s t)
    (htask : task ∈ t.provider.pipeline.queue.tasks)
    (hproduction : task.isReview = false) :
    task ∈ s.provider.pipeline.queue.tasks
      ∨ task = Provider.taskFor setup task.coord s.provider.state
        ∧ s.provider.state.isResident task.coord = false := by
  cases h with
  | cancel => exact .inl htask
  | reorder u h => exact .inl htask
  | act a =>
    by_cases hwork : a = .work
    · subst hwork
      have hstep : (s.step setup .work).provider
          = (s.provider.work? setup).getD s.provider := rfl
      rw [hstep] at htask
      cases h : s.provider.work? setup with
      | none => exact .inl (by rwa [h] at htask)
      | some q =>
        rw [h, Option.getD_some] at htask
        exact .inl (hs.mem_tasks_of_work h htask hproduction)
    by_cases hcall : a.isCall = true
    · exact Provider.mem_tasks_of_asks hs
        (Session.asks_step setup hcall hwork s) htask
    by_cases hhandling : a.isHandling = true
    · obtain ⟨u, -, h⟩ := Session.handled_step setup hhandling s
      rw [h] at htask
      exact .inl htask
    cases a with
    | update =>
      exact Provider.mem_tasks_of_asks hs
        (Provider.asks_publishing setup s.position s.provider) htask
    | markReady c => exact .inl htask
    | dispose =>
      rcases s.provider.queue_dispose setup with hqueue | hqueue
      · exact .inl (hqueue ▸ htask)
      · have hnone : task ∈ s.provider.pipeline.queue.close.2.tasks :=
          hqueue ▸ htask
        cases hnone
    | _ => simp [Act.isCall, Act.isHandling] at hcall hhandling

end Session.Next

/-! ## Sessions beside others -/

/-- What can happen to a session while others use its far tier as well. -/
inductive Session.Shared (setup : Setup σ) (changes : σ → σ → Prop) :
    Session σ → Session σ → Prop
  | next {s t : Session σ} (h : Next setup s t) : Shared setup changes s t
  | far (s : Session σ) (next : σ) (h : changes s.provider.state.far next) :
      Shared setup changes s
        (s.mapProvider (·.modifyState ({ · with far := next })))

namespace Session.Shared

theorem claims (h : Shared setup changes s t) (hs : Claims s.provider) :
    Claims t.provider := by
  cases h with
  | next h => exact hs.of_next h
  | far far h =>
    exact hs.modifyState (f := ({ · with far := far })) rfl (fun _ => id)
      (fun _ => id)

theorem claims_of_reaches (hs : Claims s.provider)
    (h : Relation.ReflTransGen (Shared setup changes) s t) :
    Claims t.provider := by
  induction h with
  | refl => exact hs
  | tail _ hstep ih => exact hstep.claims ih

/-- The runs of a session are among what can happen to it beside others. -/
theorem reaches_run (acts : List Act) (s : Session σ) :
    Relation.ReflTransGen (Shared setup changes) s (s.run setup acts) :=
  (Session.reaches_run setup acts s).lift id fun _ _ => .next

theorem contains_of_contains (htier : setup.tier.Lasting changes c)
    (hs : Claims s.provider) (h : Shared setup changes s t)
    (hopen : t.provider.pipeline.stopped = false)
    (hc : setup.tier.contains c s.provider.state.far = true) :
    setup.tier.contains c t.provider.state.far = true := by
  cases h with
  | next h => exact h.contains_of_contains htier hs hopen hc
  | far far h => exact htier.others _ _ h hc

theorem contains_eq (htier : setup.tier.PutsOnly changes c)
    (hs : Claims s.provider) (h : Shared setup changes s t)
    (hopen : t.provider.pipeline.stopped = false)
    (hplaces : ∀ d chunk, s.provider.state.chunk? d = some chunk →
      chunk.coord = d)
    (habsent : s.provider.state.isResident c = false) :
    setup.tier.contains c t.provider.state.far
      = setup.tier.contains c s.provider.state.far := by
  cases h with
  | next h => exact h.contains_eq htier hs hopen hplaces habsent
  | far far h => exact htier.others _ _ h

theorem mem_tasks (hs : Claims s.provider) (h : Shared setup changes s t)
    (htask : task ∈ t.provider.pipeline.queue.tasks)
    (hproduction : task.isReview = false) :
    task ∈ s.provider.pipeline.queue.tasks
      ∨ task = Provider.taskFor setup task.coord s.provider.state
        ∧ s.provider.state.isResident task.coord = false := by
  cases h with
  | next h => exact h.mem_tasks hs htask hproduction
  | far far h => exact .inl htask

end Session.Shared

/-! ## From one request to the next -/

/-- The task waits from the second moment on. -/
def Session.Waiting (setup : Setup σ) (changes : σ → σ → Prop) (task : Task) :
    Session σ → Session σ → Prop :=
  Relation.ReflTransGen fun s t => Shared setup changes s t
    ∧ task ∈ t.provider.pipeline.queue.tasks

/-- What can happen to a session while production goes on and nobody has had a
coordinate claimed again. -/
def Session.Awaiting (setup : Setup σ) (changes : σ → σ → Prop) (c : Coord) :
    Session σ → Session σ → Prop :=
  Relation.ReflTransGen fun s t => Shared setup changes s t
    ∧ t.provider.pipeline.stopped = false ∧ ¬ t.provider.state.Holds c

/-- What can happen to a session while production goes on and a coordinate is
not resident. -/
def Session.Lacking (setup : Setup σ) (changes : σ → σ → Prop) (c : Coord) :
    Session σ → Session σ → Prop :=
  Relation.ReflTransGen fun s t => Shared setup changes s t
    ∧ s.provider.state.isResident c = false
    ∧ t.provider.pipeline.stopped = false

/-- A production that waits was queued at some moment, as the task that the far
tier asked for then. -/
theorem Session.exists_request {world : String} {workers : Nat} {far : σ}
    (hstart : Provider.start setup world workers far = .ok p)
    (hrun : Relation.ReflTransGen (Shared setup changes) (.ofProvider p) s)
    (htask : task ∈ s.provider.pipeline.queue.tasks)
    (hproduction : task.isReview = false) :
    ∃ r, Relation.ReflTransGen (Shared setup changes) (.ofProvider p) r
      ∧ task ∉ r.provider.pipeline.queue.tasks
      ∧ Waiting setup changes task r s
      ∧ task = Provider.taskFor setup task.coord r.provider.state
      ∧ r.provider.state.isResident task.coord = false := by
  induction hrun with
  | refl =>
    have hqueue : p.pipeline.queue = .empty := (Provider.start_spec hstart).2.1
    have hnone : task ∈ TaskQueue.empty.tasks := hqueue ▸ htask
    cases hnone
  | @tail s t hrun hstep ih =>
    by_cases hbefore : task ∈ s.provider.pipeline.queue.tasks
    · obtain ⟨r, hreach, hnew, hwaiting, hasked⟩ := ih hbefore
      exact ⟨r, hreach, hnew, hwaiting.tail ⟨hstep, htask⟩, hasked⟩
    · have hs := Shared.claims_of_reaches (.start hstart) hrun
      have hasked := (hstep.mem_tasks hs htask hproduction).resolve_left hbefore
      exact ⟨s, hrun, hbefore, .single ⟨hstep, htask⟩, hasked⟩

/-- What waits to be produced is not resident. -/
theorem Session.Waiting.lacking (h : Waiting setup changes task s t)
    (hs : Claims s.provider) (hproduction : task.isReview = false)
    (habsent : s.provider.state.isResident task.coord = false) :
    Lacking setup changes task.coord s t ∧ Claims t.provider
      ∧ t.provider.state.isResident task.coord = false := by
  induction h with
  | refl => exact ⟨.refl, hs, habsent⟩
  | tail _ hstep ih =>
    obtain ⟨hlacking, hclaims, habsent⟩ := ih
    obtain ⟨hstep, htask⟩ := hstep
    have hnext := hstep.claims hclaims
    refine ⟨hlacking.tail ⟨hstep, habsent, ?_⟩, hnext, ?_⟩
    · rw [← Bool.not_eq_true]
      intro hstopped
      rw [hnext.halted hstopped] at htask
      cases htask
    · exact hnext.absent _ (hnext.perm.mem_iff.2
        (Task.mem_productions.2 ⟨task, htask, hproduction, rfl⟩))

namespace Session.Awaiting

/-- The coordinate is as free at the end as at the beginning. -/
theorem free (h : Awaiting setup changes c s t)
    (hopen : s.provider.pipeline.stopped = false)
    (hfree : ¬ s.provider.state.Holds c) :
    t.provider.pipeline.stopped = false ∧ ¬ t.provider.state.Holds c := by
  cases h with
  | refl => exact ⟨hopen, hfree⟩
  | tail _ hstep => exact hstep.2

theorem claims (h : Awaiting setup changes c s t) (hs : Claims s.provider) :
    Claims t.provider :=
  Shared.claims_of_reaches hs (h.lift id fun _ _ hstep => hstep.1)

theorem lacking (h : Awaiting setup changes c s t)
    (hfree : ¬ s.provider.state.Holds c) : Lacking setup changes c s t := by
  have habsent {s : Session σ} (hfree : ¬ s.provider.state.Holds c) :
      s.provider.state.isResident c = false := by
    rw [← Bool.not_eq_true]
    exact fun hresident => hfree (.inl hresident)
  induction h using Relation.ReflTransGen.head_induction_on with
  | refl => exact .refl
  | head hstep _ ih =>
    exact .head ⟨hstep.1, habsent hfree, hstep.2.1⟩ (ih hstep.2.2)

end Session.Awaiting

namespace Session.Lacking

theorem contains_of_contains (h : Lacking setup changes c s t)
    (htier : setup.tier.Lasting changes c) (hs : Claims s.provider)
    (hc : setup.tier.contains c s.provider.state.far = true) :
    setup.tier.contains c t.provider.state.far = true := by
  induction h using Relation.ReflTransGen.head_induction_on with
  | refl => exact hc
  | head hstep _ ih =>
    exact ih (hstep.1.claims hs)
      (hstep.1.contains_of_contains htier hs hstep.2.2 hc)

/-- Where resident chunks are at their own coordinates, it contains the
coordinate as before. -/
theorem contains_eq (h : Lacking setup changes c s t)
    (htier : setup.tier.PutsOnly changes c)
    (hplaces : ∀ v, Relation.ReflTransGen (Shared setup changes) s v →
      ∀ d chunk, v.provider.state.chunk? d = some chunk → chunk.coord = d)
    (hs : Claims s.provider) :
    setup.tier.contains c t.provider.state.far
      = setup.tier.contains c s.provider.state.far := by
  induction h using Relation.ReflTransGen.head_induction_on with
  | refl => rfl
  | head hstep _ ih =>
    obtain ⟨hstep, habsent, hopen⟩ := hstep
    rw [ih (fun v hv => hplaces v (.head hstep hv)) (hstep.claims hs)]
    exact hstep.contains_eq htier hs hopen (hplaces _ .refl) habsent

end Session.Lacking

end ChunkStream
