import ChunkStream.Proofs.Streaming.Flags

/-!
# Work comes to rest

In a world where nothing fails and nobody holds a chunk every production makes
its chunk resident, and a review is done with once and for all.  So what is on
its way arrives and nothing else does.  The worker comes to rest, for a
production asks for at most nine reviews and a review for none.
-/

namespace ChunkStream

variable {σ : Type} {setup : Setup σ} {good : σ → Prop}

/-- Nothing fails as long as the far tier is in a good state: the generator
makes every chunk, and the tier gives back what it contains.  A tier that takes
chunks stays good and keeps what it has, and chunks come unlocked. -/
structure Setup.Reliable (setup : Setup σ) (good : σ → Prop) : Prop where
  generate : ∀ c, ∃ chunk, setup.generator.generate c = .ok chunk
    ∧ chunk.locked = false
  finish : ∀ chunk, (setup.generator.finish chunk).1.locked = chunk.locked
  get : ∀ far c, good far → setup.tier.contains c far = true →
    ∃ chunk, setup.tier.get c far = .ok (some chunk) ∧ chunk.locked = false
  put : ∀ far chunk next, good far → chunk.locked = false →
    setup.tier.put chunk far = .ok next →
      good next ∧ ∀ c, setup.tier.contains c far = true →
        setup.tier.contains c next = true

/-! ## Weights -/

/-- How many steps of the worker a task leads to at most. -/
def Task.weight (t : Task) : Nat := if t.isReview then 1 else 10

/-- How many steps of the worker the waiting tasks lead to at most. -/
def TaskQueue.weight (q : TaskQueue) : Nat :=
  q.tasks.length + 9 * (Task.productions q.tasks).length

namespace TaskQueue

variable {q q' : TaskQueue} {p : Priority} {t : Task}

theorem tasks_eq_nil_of_weight (h : q.weight = 0) : q.tasks = [] := by
  unfold weight at h
  exact List.eq_nil_of_length_eq_zero (by omega)

theorem weight_pop (hq : q.Ticketed) (h : q.pop? p = some (t, q')) :
    q.weight = t.weight + q'.weight := by
  have hperm := perm_pop hq h
  have htasks := hperm.length_eq
  have hproductions := (Task.perm_productions hperm).length_eq
  rw [List.length_cons] at htasks
  rw [Task.productions_cons] at hproductions
  unfold weight Task.weight
  cases hreview : t.isReview with
  | true =>
    rw [hreview, if_pos rfl] at hproductions
    rw [if_pos rfl]
    omega
  | false =>
    rw [hreview, if_neg (by simp), List.length_cons] at hproductions
    rw [if_neg (by simp)]
    omega

theorem weight_push_review_le (c : Coord) :
    (q.push p (.review c)).1.weight ≤ q.weight + 1 := by
  have hproductions := productions_push_review (q := q) (p := p) c
  have htasks : (q.push p (.review c)).1.tasks.length ≤ q.tasks.length + 1 :=
    push_preserve (P := fun r => r.tasks.length ≤ q.tasks.length + 1)
      (Nat.le_succ _) fun _ => by rw [tasks_accept, List.length_cons]
  unfold weight
  rw [hproductions]
  omega

end TaskQueue

namespace Pipeline

variable {q : TaskQueue} {p : Priority}

theorem weight_followUp_le (bs : List Box) :
    (followUp p bs q).weight ≤ q.weight + (bs.flatMap Box.toList).length := by
  unfold followUp
  induction bs.flatMap Box.toList generalizing q with
  | nil => exact Nat.le_refl _
  | cons c cs ih =>
    calc (cs.foldl (fun q c => (q.push p (.review c)).1)
      (q.push p (.review c)).1).weight
        ≤ (q.push p (.review c)).1.weight + cs.length := ih
      _ ≤ q.weight + 1 + cs.length :=
        Nat.add_le_add_right (TaskQueue.weight_push_review_le c) _
      _ = q.weight + (c :: cs).length := by rw [List.length_cons]; omega

end Pipeline

/-! ## Chunks that nobody holds -/

/-- Nobody holds a resident chunk. -/
def StreamState.Free (s : StreamState σ) : Prop :=
  ∀ r ∈ Table.values s.near, r.chunk.locked = false

namespace StreamState.Free

variable {s t : StreamState σ}

theorem of_near (hs : s.Free) (h : t.near = s.near) : t.Free := by
  unfold Free
  rwa [h]

theorem chunk? (hs : s.Free) {c : Coord} {chunk : Chunk}
    (h : s.chunk? c = some chunk) : chunk.locked = false := by
  obtain ⟨r, hr, rfl⟩ := Option.map_eq_some_iff.1 h
  exact hs r (Table.mem_values_of_get?_eq_some hr)

theorem of_sublist (hs : s.Free) (h : t.near.Sublist s.near) : t.Free :=
  fun r hr => hs r ((h.map _).subset hr)

theorem of_handled (hs : s.Free) (h : Handled Resident.StaysFree s t) :
    t.Free := by
  obtain ⟨g, hg, hgood⟩ := h.near
  intro r hr
  rw [hg, Table.values_mapValues] at hr
  obtain ⟨r', hr', rfl⟩ := List.mem_map.1 hr
  exact (hgood r' hr').2 (hs r' hr')

theorem adjustChunk (hs : s.Free) (c : Coord) {chunk : Chunk}
    (hchunk : chunk.locked = false) :
    (s.adjustChunk c fun _ => chunk).Free := by
  intro r hr
  rcases Table.mem_values_adjust hr with hr | ⟨r, -, rfl⟩
  · exact hs r hr
  · exact hchunk

theorem settleChunk (hs : s.Free) (t : Task) {chunk : Chunk}
    (hchunk : chunk.locked = false) :
    (Production.settleChunk t chunk s).Free := by
  unfold Production.settleChunk StreamState.install
  split
  · exact hs
  · intro r hr
    rcases Table.mem_values_insert hr with rfl | hr
    · exact hchunk
    · exact hs r hr

theorem announceIfComplete (hs : s.Free) (c : Coord) :
    (Production.announceIfComplete c s).Free := by
  unfold Production.announceIfComplete
  split
  · exact hs.of_near (Announcing.announceAround c s).near
  · exact hs

end StreamState.Free

/-! ## Running a task -/

namespace Production

variable {s : StreamState σ} {t : Task}

/-- In a reliable world a production delivers an unlocked chunk. -/
theorem produce_eq (hreliable : setup.Reliable good) (hfar : good s.far)
    (ht : t.isReview = false)
    (hload : ∀ c, t = .load c → setup.tier.contains c s.far = true) :
    ∃ u chunk, Annotated s u ∧ chunk.locked = false
      ∧ produce setup false t s
        = { state := announceIfComplete t.coord (settleChunk t chunk u)
            reviews := [Box.neighborhood t.coord] } := by
  obtain ⟨chunk, hchunk, hfree⟩ : ∃ chunk, Acquires setup s.far t chunk
      ∧ chunk.locked = false := by
    cases t with
    | load c => exact hreliable.get s.far c hfar (hload c rfl)
    | generate c => exact hreliable.generate c
    | review c => simp [Task.isReview] at ht
  have honly (next : Chunk) (hnext : Acquires setup s.far t next) :
      next = chunk := by
    cases t with
    | load c =>
      have hsame := hnext.symm.trans hchunk
      simpa using hsame
    | generate c =>
      have hsame := hnext.symm.trans hchunk
      simpa using hsame
    | review c => simp [Task.isReview] at ht
  rcases produce_cases setup false t s with
    ⟨u, failure, -, hfails, -⟩ | ⟨u, next, hnote, -, hnext, h⟩
  · rcases hfails with hcancelled | hnone
    · cases hcancelled
    · exact absurd hchunk (hnone chunk)
  · rw [honly next hnext] at h
    exact ⟨u, chunk, hnote, hfree, h⟩

/-- What a task leaves behind in a reliable world where nobody holds a chunk. -/
structure Delivers (t : Task) (s : StreamState σ)
    (ran : Ran (StreamState σ)) : Prop where
  free : ran.state.Free
  cancels : ran.cancels = false
  resident : ∀ c, s.isResident c = true → ran.state.isResident c = true
  holds : ∀ c, ran.state.Holds c ↔ s.Holds c
  light : (ran.reviews.flatMap Box.toList).length < t.weight

theorem delivers_produce (hreliable : setup.Reliable good) (hfar : good s.far)
    (hfree : s.Free) (ht : t.isReview = false)
    (hload : ∀ c, t = .load c → setup.tier.contains c s.far = true)
    (hclaim : t.coord ∈ s.preparing) (hnodup : s.preparing.Nodup) :
    Delivers t s (produce setup false t s) := by
  obtain ⟨u, chunk, hnote, hchunk, h⟩ := produce_eq hreliable hfar ht hload
  have hsame := SamePlaces.of_annotated hnote
  have hannounce :=
    SamePlaces.announceIfComplete t.coord (settleChunk t chunk u)
  have hresident (c : Coord) :
      (announceIfComplete t.coord (settleChunk t chunk u)).isResident c
      = true ↔ s.isResident c = true ∨ c = t.coord := by
    rw [hannounce.resident, isResident_settleChunk, hsame.resident]
  rw [h]
  refine ⟨?_, rfl, fun c hc => (hresident c).2 (.inl hc), ?_, ?_⟩
  · exact ((hfree.of_near hnote.sameStock.near).settleChunk t
      hchunk).announceIfComplete t.coord
  · intro c
    have hpreparing :
        (announceIfComplete t.coord (settleChunk t chunk u)).preparing
        = s.preparing.erase t.coord := by
      rw [hannounce.preparing, (settleChunk_frame t chunk u).1, hsame.preparing]
    show (announceIfComplete t.coord (settleChunk t chunk u)).isResident c
      = true
      ∨ c ∈ (announceIfComplete t.coord (settleChunk t chunk u)).preparing ↔ _
    rw [hresident, hpreparing, hnodup.mem_erase_iff]
    by_cases hc : c = t.coord
    · subst hc
      simp [StreamState.Holds, hclaim]
    · simp [StreamState.Holds, hc]
  · have hcount := Box.count_neighborhood_le (c := t.coord)
    simp only [List.flatMap_cons, List.flatMap_nil, List.append_nil,
      Box.length_toList,
      Task.weight, ht]
    exact Nat.lt_succ_of_le hcount

theorem delivers_review (hreliable : setup.Reliable good) (hfree : s.Free)
    (c : Coord) : Delivers (.review c) s (review setup c s) := by
  have hplaces := SamePlaces.review setup c s
  have hresident (x : Coord) (hx : s.isResident x = true) :
      (review setup c s).state.isResident x = true :=
        (hplaces.resident x).trans hx
  have hholds (x : Coord) : (review setup c s).state.Holds x ↔ s.Holds x := by
    unfold StreamState.Holds
    rw [hplaces.resident, hplaces.preparing]
  rcases review_cases setup c s with
    ⟨reviews, hreviews, h⟩ | h | ⟨chunk, hchunk, -, -, hunlocked, u,
      hnote, hend⟩
  · have hnone : reviews = [] := by
      rcases hreviews with hnone | ⟨-, chunk, hchunk, hlocked⟩
      · exact hnone
      · rw [hfree.chunk? hchunk] at hlocked
        cases hlocked
    rw [h] at hresident hholds ⊢
    subst hnone
    exact ⟨hfree, rfl, hresident, hholds, Nat.one_pos⟩
  · rw [h] at hresident hholds ⊢
    exact ⟨hfree.announceIfComplete c, rfl, hresident, hholds, Nat.one_pos⟩
  · have hfinish := hreliable.finish chunk
    have hfree' := hfree.of_near hnote.sameStock.near
    rcases hend with ⟨next, completion, hnext, h⟩
      | ⟨next, cause, failure, hnext, h⟩
    · rw [hnext] at hfinish
      have htagged : (next.setCompletion completion).locked = false :=
        hfinish.trans hunlocked
      rw [h] at hresident hholds ⊢
      exact ⟨(hfree'.adjustChunk c htagged).announceIfComplete c, rfl,
        hresident, hholds,
        Nat.one_pos⟩
    · rw [hnext] at hfinish
      rw [h] at hresident hholds ⊢
      exact ⟨hfree'.adjustChunk c (hfinish.trans hunlocked), rfl, hresident,
        hholds, Nat.one_pos⟩

end Production

/-! ## The invariant -/

/-- Production goes on, nobody holds a chunk, and what is to be loaded is
there. -/
structure Calm (setup : Setup σ) (good : σ → Prop) (p : Provider σ) : Prop where
  claims : Claims p
  opened : p.pipeline.stopped = false
  granted : p.pipeline.cancelled = false
  far : good p.state.far
  free : p.state.Free
  loads : ∀ c, .load c ∈ p.pipeline.queue.tasks →
    setup.tier.contains c p.state.far = true

/-- A far tier that takes chunks stays good and keeps what it has. -/
theorem Setup.Reliable.stored (hreliable : setup.Reliable good) {far next : σ}
    (hfar : good far) (h : Stored setup far next) :
    good next ∧ ∀ c, setup.tier.contains c far = true →
        setup.tier.contains c next = true := by
  induction h with
  | refl => exact ⟨hfar, fun _ hc => hc⟩
  | tail _ hstep ih =>
    obtain ⟨chunk, hfree, hput⟩ := hstep
    obtain ⟨hnext, hkept⟩ := hreliable.put _ chunk _ ih.1 hfree hput
    exact ⟨hnext, fun c hc => hkept c (ih.2 c hc)⟩

namespace Calm

variable {p q : Provider σ}

/-- Changes of the state that lose nothing of the far tier and lock no chunk. -/
theorem modifyState (hp : Calm setup good p) {f : StreamState σ → StreamState σ}
    (hclaims : Claims (p.modifyState f)) (hfree : (f p.state).Free)
    (hfar : good (f p.state).far
      ∧ ∀ c, setup.tier.contains c p.state.far = true →
      setup.tier.contains c (f p.state).far = true) : Calm setup
          good (p.modifyState f) :=
  ⟨hclaims, hp.opened, hp.granted, hfar.1, hfree,
    fun c hc => hfar.2 c (hp.loads c hc)⟩

theorem of_sameStock (hp : Calm setup good p)
    {f : StreamState σ → StreamState σ} (h : SameStock p.state (f p.state)) :
    Calm setup good (p.modifyState f) := by
  apply hp.modifyState (hp.claims.of_sameStock h) (hp.free.of_near h.near)
  rw [h.far]
  exact ⟨hp.far, fun _ hc => hc⟩

theorem requestChunk (hp : Calm setup good p) (c : Coord) :
    Calm setup good (p.requestChunk setup c) := by
  have hclaims := hp.claims.requestChunk setup c
  rcases Provider.requestChunk_cases setup hp.claims.closed c
    with ⟨-, h⟩ | ⟨-, -, -, h⟩
  · rwa [h]
  · rw [h] at hclaims ⊢
    refine ⟨hclaims, hp.opened, hp.granted, hp.far, hp.free, ?_⟩
    intro d hd
    rw [Provider.tasks_claim] at hd
    rcases List.mem_cons.1 hd with hd | hd
    · obtain ⟨rfl, hstored⟩ := Provider.load_eq_taskFor_iff.1 hd
      exact hstored
    · exact hp.loads d hd

/-- A step of the worker neither brings nor loses anything that is not on its
way, and makes the queue lighter. -/
theorem work (hreliable : setup.Reliable good) (hp : Calm setup good p)
    (h : p.work? setup = some q) :
    Calm setup good q
      ∧ (∀ c, p.state.isResident c = true → q.state.isResident c = true)
      ∧ (∀ c, q.state.Holds c ↔ p.state.Holds c)
      ∧ q.pipeline.queue.weight < p.pipeline.queue.weight := by
  have hclaims := hp.claims.work h
  have hfar := (Provider.work?_frame h).2
  obtain ⟨t, queue, u, completed, failed, hpop, hnote, rfl⟩ :=
    Provider.work?_spec h
  have hperm := TaskQueue.perm_pop hp.claims.ticketed hpop
  have hdelivers : Production.Delivers t p.state
      (Production.run setup p.pipeline.cancelled t p.state) := by
    rw [hp.granted]
    cases hreview : t.isReview with
    | true =>
      obtain ⟨c, rfl⟩ := Task.exists_review hreview
      exact Production.delivers_review hreliable hp.free c
    | false =>
      rw [Production.run_production _ hreview]
      refine Production.delivers_produce hreliable hp.far hp.free
        hreview ?_ ?_
        hp.claims.nodup
      · intro c hc
        exact hp.loads c (hperm.mem_iff.2 (hc ▸ List.mem_cons_self))
      · rw [hp.claims.perm.mem_iff, Task.mem_productions]
        exact ⟨t, hperm.mem_iff.2 List.mem_cons_self, hreview, rfl⟩
  have hsame := SamePlaces.of_annotated hnote
  refine ⟨⟨hclaims, hp.opened, ?_, ?_, ?_, ?_⟩, ?_, ?_, ?_⟩
  · show (p.pipeline.cancelled || _) = false
    rw [hdelivers.cancels, hp.granted]
    rfl
  · rw [hfar]
    exact hp.far
  · exact hdelivers.free.of_near hnote.sameStock.near
  · intro c hc
    rw [hfar]
    exact hp.loads c (hp.claims.mem_tasks_of_work h hc rfl)
  · intro c hc
    exact (hsame.resident c).trans (hdelivers.resident c hc)
  · intro c
    rw [← hdelivers.holds]
    show u.isResident c = true ∨ c ∈ u.preparing ↔ _
    rw [hsame.resident, hsame.preparing]
    rfl
  · have hlight := hdelivers.light
    have hpopped := TaskQueue.weight_pop hp.claims.ticketed hpop
    have hfollow := Pipeline.weight_followUp_le (q := queue)
      (p := Production.priority
        (Production.run setup p.pipeline.cancelled t p.state).state)
      (Production.run setup p.pipeline.cancelled t p.state).reviews
    calc (Pipeline.followUp _ _ queue).weight
        ≤ queue.weight + _ := hfollow
      _ < queue.weight + t.weight := Nat.add_lt_add_left hlight _
      _ = p.pipeline.queue.weight := by rw [hpopped, Nat.add_comm]

theorem advance (hreliable : setup.Reliable good) (hp : Calm setup good p)
    (h : Provider.Advance setup p q) : Calm setup good q := by
  cases h with
  | beside h => exact hp.of_sameStock h
  | request c => exact hp.requestChunk c
  | work h => exact (hp.work hreliable h).1

theorem advances (hreliable : setup.Reliable good) (hp : Calm setup good p)
    (h : Provider.Advances setup p q) : Calm setup good q :=
  h.preserve (fun _ _ hstep hp => hp.advance hreliable hstep) hp

/-- A sweep only moves chunks that nobody holds. -/
theorem update (hreliable : setup.Reliable good) (hp : Calm setup good p)
    (positions : ObserverId → Option Coord) :
    Calm setup good (p.update setup positions) := by
  have hfollow := hp.advances
    hreliable (Provider.advances_publishing setup positions p)
  have hdrain := Published.drainSignals (p.publishing setup positions)
  have hswept := (Eviction.sweep_spec setup (p.sweeping setup positions)).1
  have hnotify := sameStock_compact setup (p.sweeping setup positions)
  have hclaims : Claims (p.update setup positions) := hp.claims.update positions
  rw [Provider.update_eq] at hclaims ⊢
  refine hfollow.modifyState
    (f := fun s => Provider.compact setup (Provider.drainSignals s))
    hclaims ?_ ?_
  · have hsweeping : (p.sweeping setup positions).Free :=
      hfollow.free.of_near hdrain.near
    have hsublist : (sweptState setup (p.sweeping setup positions)).near.Sublist
        (p.sweeping setup positions).near := by
      rw [sweptState, hswept.near]
      exact List.filter_sublist
    exact (hsweeping.of_sublist hsublist).of_near hnotify.near
  · have hsame : (p.sweeping setup positions).far
        = (p.publishing setup positions).far :=
      hdrain.far
    have hstored : Stored setup (p.publishing setup positions).far
        (Provider.compact setup (p.sweeping setup positions)).far := by
      rw [hnotify.far, ← hsame]
      exact hswept.far
    exact hreliable.stored hfollow.far hstored

theorem start {world : String} {workers : Nat} {far : σ} (hfar : good far)
    (h : Provider.start setup world workers far = .ok p) :
    Calm setup good p := by
  obtain ⟨hnote, hqueue, hopened, hgranted⟩ := Provider.start_spec h
  have hsame := hnote.sameStock
  refine ⟨Claims.start h, hopened, hgranted, ?_, ?_, ?_⟩
  · rw [hsame.far]
    exact hfar
  · intro r hr
    rw [hsame.near] at hr
    exact absurd hr List.not_mem_nil
  · intro c hc
    rw [hqueue] at hc
    exact absurd hc List.not_mem_nil

end Calm

/-! ## Runs -/

/-- Acts of a session that goes on, in which nobody locks a chunk. -/
def Act.keepsFree : Act → Bool
  | .lock _ | .dispose => false
  | _ => true

theorem Calm.step (hreliable : setup.Reliable good) {s : Session σ}
    (hs : Calm setup good s.provider) {a : Act} (ha : a.keepsFree = true) :
    Calm setup good (s.step setup a).provider := by
  by_cases hcall : a.isCall = true
  · exact hs.advances hreliable (Session.advances_step setup hcall s)
  by_cases hhandling : a.isHandling = true
  · have hclaims : Claims (s.step setup a).provider := hs.claims.step a
    have hlock : ∀ c, a ≠ .lock c := by
      rintro c rfl
      cases ha
    obtain ⟨t, ht, h⟩ :=
      Session.handled_step_of_unlocked setup hhandling hlock hs.free
    rw [h] at hclaims ⊢
    apply hs.modifyState hclaims (hs.free.of_handled ht)
    rw [ht.frame]
    exact ⟨hs.far, fun _ hc => hc⟩
  cases a with
  | update => exact hs.update hreliable s.position
  | markReady c =>
    have hclaims : Claims (s.step setup (.markReady c)).provider :=
      hs.claims.step _
    exact hs.modifyState hclaims hs.free ⟨hs.far, fun _ hc => hc⟩
  | dispose => cases ha
  | _ => simp [Act.isCall, Act.isHandling] at hcall hhandling

namespace Session

variable {s : Session σ}

/-- Steps of the worker move no observer and touch no region. -/
theorem run_work_frame (n : Nat) (s : Session σ) :
    (s.run setup (List.replicate n .work)).provider.state.regions
      = s.provider.state.regions
      ∧ (s.run setup (List.replicate n .work)).position = s.position := by
  induction n generalizing s with
  | zero => exact ⟨rfl, rfl⟩
  | succ n ih =>
    obtain ⟨hregions, hposition⟩ := ih (s.step setup .work)
    exact ⟨hregions.trans (regions_work s),
      hposition.trans (position_step (by simp) s)⟩

/-- After as many steps as the queue is heavy the worker is at rest, and
resident is what was resident or on its way. -/
theorem run_work_of_calm (hreliable : setup.Reliable good)
    (hs : Calm setup good s.provider)
    {n : Nat} (hn : s.provider.pipeline.queue.weight ≤ n) :
    (s.run setup (List.replicate n .work)).provider.pipeline.queue.tasks = []
      ∧ ∀ c, (s.run setup (List.replicate n .work)).provider.state.isResident c
        = true ↔
        s.provider.state.Holds c := by
  induction n generalizing s with
  | zero =>
    have htasks : s.provider.pipeline.queue.tasks = [] :=
      TaskQueue.tasks_eq_nil_of_weight (Nat.le_zero.1 hn)
    have hpreparing : s.provider.state.preparing = [] := by
      have hperm := hs.claims.perm
      rw [htasks] at hperm
      exact hperm.eq_nil
    exact ⟨htasks, fun c => by simp [run, StreamState.Holds, hpreparing]⟩
  | succ n ih =>
    have hrun : s.run setup (List.replicate (n + 1) .work)
        = (s.step setup .work).run setup (List.replicate n .work) := rfl
    have hstep : (s.step setup .work).provider
      = (s.provider.work? setup).getD s.provider := rfl
    rw [hrun]
    cases hwork : s.provider.work? setup with
    | none =>
      have hidle : s.step setup .work = s := by
        rw [hwork] at hstep
        exact congrArg (fun p => { s with provider := p }) hstep
      have hempty : s.provider.pipeline.queue.weight = 0 := by
        rcases Provider.work?_eq_none_iff.1 hwork with hclosed | htasks
        · rw [hs.claims.closed, hs.opened] at hclosed
          cases hclosed
        · rw [TaskQueue.weight, htasks]
          rfl
      rw [hidle]
      exact ih hs (by omega)
    | some q =>
      obtain ⟨hq, -, hholds, hlighter⟩ := hs.work hreliable hwork
      rw [hwork, Option.getD_some] at hstep
      rw [← hstep] at hq hholds hlighter
      obtain ⟨htasks, hresident⟩ := ih hq (by omega)
      exact ⟨htasks, fun c => (hresident c).trans (hholds c)⟩

end Session

end ChunkStream
