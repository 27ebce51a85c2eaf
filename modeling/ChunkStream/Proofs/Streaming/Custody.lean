import ChunkStream.Proofs.Streaming.Flushing
import ChunkStream.Proofs.Streaming.Handing

/-!
# No chunk is lost

When a coordinate is claimed, the far tier alone decides whether it is loaded or
generated.  The decision is still right when the task runs: what is stored stays
stored, and nothing is put for a coordinate that is not resident.  Hence a
coordinate with a copy is never generated again, and its copy goes from tier to
tier unchanged.  It changes only while the chunk is resident, when somebody
edits it or the worker finishes it.
-/

namespace ChunkStream

variable {setup : Setup FarStore} {p q : Provider FarStore}
  {s t u : StreamState FarStore} {c : Coord} {chunk : Chunk}

/-! ## The invariant -/

/-- The tiers are sound, a task loads what has a copy and generates what has
none, and the chunk of a coordinate was made at most once, and not at all as
long as there is no copy. -/
structure Stocked (p : Provider FarStore) : Prop where
  claims : Claims p
  aged : WellAged p.state
  sound : p.state.Sound
  stopped : p.state.far.closed = true → p.pipeline.stopped = true
  loads : ∀ c, .load c ∈ p.pipeline.queue.tasks →
    (p.state.copy? c).isSome = true
  generates : ∀ c, .generate c ∈ p.pipeline.queue.tasks →
    p.state.copy? c = none
  generated : ∀ c,
    p.state.generated c ≤ if (p.state.copy? c).isSome then 1 else 0

namespace Stocked

/-- What leaves each coordinate its copy, changed or not, and queues no
production. -/
theorem held (hp : Stocked p) (hclaims : Claims q) (haged : WellAged q.state)
    (hsound : q.state.Sound)
    (hcopy : ∀ c, (q.state.copy? c).isSome = (p.state.copy? c).isSome)
    (hstopped : q.state.far.closed = true → q.pipeline.stopped = true)
    (htasks : ∀ t ∈ q.pipeline.queue.tasks, t.isReview = false →
      t ∈ p.pipeline.queue.tasks)
    (hgenerated : ∀ c, q.state.generated c = p.state.generated c) :
    Stocked q where
  claims := hclaims
  aged := haged
  sound := hsound
  stopped := hstopped
  loads c hc := by
    rw [hcopy]
    exact hp.loads c (htasks _ hc rfl)
  generates c hc := by
    rw [← Option.not_isSome_iff_eq_none, hcopy, Option.not_isSome_iff_eq_none]
    exact hp.generates c (htasks _ hc rfl)
  generated c := by
    rw [hgenerated, hcopy]
    exact hp.generated c

theorem conserved (hp : Stocked p) (hclaims : Claims q)
    (haged : WellAged q.state) (h : Conserved p.state q.state)
    (hstopped : p.pipeline.stopped = true → q.pipeline.stopped = true)
    (htasks : ∀ t ∈ q.pipeline.queue.tasks, t.isReview = false →
      t ∈ p.pipeline.queue.tasks) : Stocked q :=
  hp.held hclaims haged h.sound (fun c => by rw [h.copy])
    (fun hclosed => hstopped (hp.stopped (h.closed ▸ hclosed))) htasks
    h.generated

theorem far_opened (hp : Stocked p) (hopen : p.pipeline.stopped = false) :
    p.state.far.closed = false := by
  rw [← Bool.not_eq_true]
  intro hclosed
  rw [hp.stopped hclosed] at hopen
  cases hopen

/-- The chunk of one coordinate has been made or finished. -/
theorem replaced (hp : Stocked p) (hclaims : Claims q)
    (haged : WellAged q.state) (h : Replaced c chunk p.state q.state)
    (hchunk : chunk.Intact c) (hopen : p.pipeline.stopped = false)
    (htasks : ∀ t ∈ q.pipeline.queue.tasks, t.isReview = false →
      t ∈ p.pipeline.queue.tasks)
    (hgenerated : ∀ d ≠ c, q.state.generated d = p.state.generated d)
    (honce : q.state.generated c ≤ 1) : Stocked q := by
  have hfar := hp.far_opened hopen
  have hself : (q.state.copy? c).isSome = true := by rw [h.copy_self]; rfl
  refine ⟨hclaims, haged, h.sound hp.sound hchunk hfar, ?_, ?_, ?_, ?_⟩
  · intro hclosed
    rw [h.far, hfar] at hclosed
    cases hclosed
  · intro d hd
    by_cases hdc : d = c
    · rw [hdc, hself]
    · rw [h.copy_of_ne hdc]
      exact hp.loads d (htasks _ hd rfl)
  · intro d hd
    by_cases hdc : d = c
    · -- what is to be generated is claimed, and so it is not resident
      have hclaimed : d ∈ q.state.preparing :=
        hclaims.perm.mem_iff.2 (Task.mem_productions.2 ⟨_, hd, rfl, rfl⟩)
      have habsent := hclaims.absent d hclaimed
      rw [StreamState.isResident_eq, h.chunk, if_pos hdc] at habsent
      cases habsent
    · rw [h.copy_of_ne hdc]
      exact hp.generates d (htasks _ hd rfl)
  · intro d
    by_cases hdc : d = c
    · rw [hdc, hself]
      exact honce
    · rw [hgenerated d hdc, h.copy_of_ne hdc]
      exact hp.generated d

/-! ## Calls -/

theorem ask (hp : Stocked p) (htier : setup.tier = FarStore.tier)
    (h : Provider.Ask setup p q) :
    Stocked q ∧ Conserved p.state q.state := by
  have hclaims := hp.claims.advance h.advance
  cases h with
  | beside h =>
    have hconserved := Conserved.of_sameStock hp.sound h
    exact ⟨hp.conserved hclaims (hp.aged.of_near h.near h.nextAge) hconserved
      id fun t ht _ => ht, hconserved⟩
  | request c =>
    rcases Provider.requestChunk_cases setup hp.claims.closed c with
      ⟨-, h⟩ | ⟨-, habsent, -, h⟩
    · rw [h]
      exact ⟨hp, .refl hp.sound⟩
    · rw [h] at hclaims ⊢
      have hconserved : Conserved p.state (p.claim setup c).state :=
        .of_same hp.sound rfl rfl fun _ => rfl
      have hcontains : setup.tier.contains c p.state.far
          = p.state.far.contains c := by
        rw [htier]
        rfl
      have hcopy := hp.sound.isSome_copy? c
      rw [habsent] at hcopy
      refine ⟨⟨hclaims, hp.aged.of_near rfl rfl, hconserved.sound, hp.stopped,
        ?_, ?_, ?_⟩, hconserved⟩
      · intro d hd
        rw [hconserved.copy]
        rw [Provider.tasks_claim] at hd
        rcases List.mem_cons.1 hd with hd | hd
        · obtain ⟨rfl, hstored⟩ := Provider.load_eq_taskFor_iff.1 hd
          exact hcopy.2 (.inr (hcontains.symm.trans hstored))
        · exact hp.loads d hd
      · intro d hd
        rw [hconserved.copy]
        rw [Provider.tasks_claim] at hd
        rcases List.mem_cons.1 hd with hd | hd
        · obtain ⟨rfl, hstored⟩ := Provider.generate_eq_taskFor_iff.1 hd
          rw [← Option.not_isSome_iff_eq_none, hcopy, ← hcontains, hstored]
          simp
        · exact hp.generates d hd
      · intro d
        rw [hconserved.generated, hconserved.copy]
        exact hp.generated d

theorem asks (hp : Stocked p) (htier : setup.tier = FarStore.tier)
    (h : Provider.Asks setup p q) :
    Stocked q ∧ Conserved p.state q.state := by
  refine h.preserve (P := fun q => Stocked q ∧ Conserved p.state q.state)
    ?_ ⟨hp, .refl hp.sound⟩
  rintro r r' hstep ⟨hr, hconserved⟩
  obtain ⟨hr', hstep⟩ := hr.ask htier hstep
  exact ⟨hr', hconserved.trans hstep⟩

/-! ## Work -/

/-- A task leaves behind what it may leave behind. -/
theorem handed (hp : Stocked p) (hgenerator : setup.generator.Faithful)
    (hclaims : Claims q) (haged : WellAged q.state)
    (h : Handed setup p.state q.state) (hopen : p.pipeline.stopped = false)
    (htasks : ∀ t ∈ q.pipeline.queue.tasks, t.isReview = false →
      t ∈ p.pipeline.queue.tasks) : Stocked q := by
  cases h with
  | conserved h =>
    refine hp.conserved hclaims haged h (fun hstopped => ?_) htasks
    rw [hopen] at hstopped
    cases hstopped
  | @made c chunk hnone hchunk h hgenerated =>
    have honce := hp.generated c
    rw [hnone] at honce
    refine hp.replaced hclaims haged h (hgenerator.generate c chunk hchunk)
      hopen htasks ?_ ?_
    · intro d hd
      rw [hgenerated, if_neg (Ne.symm hd), Nat.add_zero]
    · rw [hgenerated, if_pos rfl]
      exact Nat.add_le_add_right honce 1
  | @finished c old hold _ h hgenerated =>
    have honce := hp.generated c
    rw [StreamState.copy?_of_chunk? hold, ← hgenerated] at honce
    exact hp.replaced hclaims haged h
      (hgenerator.finished (hp.sound.intact c old hold)) hopen htasks
      (fun d _ => hgenerated d) honce

theorem work (hp : Stocked p) (htier : setup.tier = FarStore.tier)
    (hgenerator : setup.generator.Faithful) (h : p.work? setup = some q) :
    Stocked q ∧ Handed setup p.state q.state := by
  have hclaims := hp.claims.work h
  have haged := (Ripened.work h).aged hp.aged
  have hopen := hp.claims.opened_of_work? h
  obtain ⟨t, queue, u, completed, failed, hpop, hnote, rfl⟩ :=
    Provider.work?_spec h
  have hperm := TaskQueue.perm_pop hp.claims.ticketed hpop
  have htask : t ∈ p.pipeline.queue.tasks :=
    hperm.mem_iff.2 List.mem_cons_self
  have hfree (hreview : t.isReview = false) :
      p.state.isResident t.coord = false :=
    hp.claims.absent _ (hp.claims.perm.mem_iff.2
      (Task.mem_productions.2 ⟨t, htask, hreview, rfl⟩))
  have hhanded : Handed setup p.state
      (Production.run setup p.pipeline.cancelled t p.state).state := by
    cases t with
    | review c => exact .review hp.sound c
    | load c =>
      exact .load htier _ hp.sound (hp.far_opened hopen) (hfree rfl)
        (hp.loads c htask)
    | generate c =>
      exact .generate _ hp.sound (hfree rfl) (hp.generates c htask)
  replace hhanded := hhanded.annotated hnote
  refine ⟨hp.handed hgenerator hclaims haged hhanded hopen ?_, hhanded⟩
  exact fun _ => hp.claims.mem_tasks_of_work h

/-! ## Other acts -/

theorem update (hp : Stocked p) (htier : setup.tier = FarStore.tier)
    (positions : ObserverId → Option Coord) :
    Stocked (p.update setup positions)
      ∧ Conserved p.state (p.update setup positions).state := by
  have hclaims : Claims (p.update setup positions) := hp.claims.update positions
  obtain ⟨hfollow, hconserved⟩ :=
    hp.asks htier (Provider.asks_publishing setup positions p)
  have hcompact := Conserved.compact htier hfollow.sound
  rw [Provider.update_eq] at hclaims ⊢
  exact ⟨hfollow.conserved hclaims hfollow.aged.compact hcompact id
    fun t ht _ => ht, hconserved.trans hcompact⟩

theorem dispose (hp : Stocked p) (htier : setup.tier = FarStore.tier) :
    Stocked (p.dispose setup) ∧ Carried p.state (p.dispose setup).state := by
  have hclaims : Claims (p.dispose setup) := hp.claims.dispose
  cases hdisposed : p.disposed with
  | true =>
    rw [Provider.dispose_of_disposed hdisposed]
    exact ⟨hp, .refl _⟩
  | false =>
    have hstopped := (hp.claims.shutdown_spec setup).1
    obtain ⟨t, js, hflush, hjs, hstate, -, -, hstop⟩ :=
      Provider.dispose_spec htier hdisposed hp.sound.opened
        hp.sound.placed hp.aged.keys
    have hnear : (p.dispose setup).state.near = [] := by
      rw [hstate]
      exact hflush.near_eq_nil
    have habsent := StreamState.chunk?_of_near_eq_nil hnear
    have hstored (c : Coord) :
        (p.dispose setup).state.far.copy? c = p.state.copy? c := by
      rw [hstate]
      exact hflush.copy?_eq hp.sound c
    have hcopy (c : Coord) :
        (p.dispose setup).state.copy? c = p.state.copy? c := by
      rw [StreamState.copy?_of_absent (habsent c), hstored]
    refine ⟨hp.held hclaims (.of_near_eq_nil hnear) ⟨?_, ?_, ?_⟩
      (fun c => by rw [hcopy]) (fun _ => hstop.trans hstopped) ?_ ?_,
      hcopy, fun c => .inr (hstored c)⟩
    · intro c chunk hchunk
      rw [habsent] at hchunk
      cases hchunk
    · rw [hstate]
      exact hflush.filed hp.sound
    · exact fun h => absurd hnear h
    · intro t' ht'
      rw [hclaims.halted (hstop.trans hstopped)] at ht'
      cases ht'
    · intro c
      rw [hstate]
      exact ((hflush.journal.trans hjs).count_eq rfl fun d h => by cases h)

end Stocked

/-! ## Chunks in hands -/

/-- The change leaves alone what counts of the chunk. -/
def Resident.SameCopy (r r' : Resident) : Prop :=
  r'.chunk.coord = r.chunk.coord ∧ r'.chunk.copy = r.chunk.copy

theorem Conserved.of_handled (hs : s.Sound)
    (h : Handled Resident.SameCopy s t) : Conserved s t := by
  obtain ⟨g, hg, hgood⟩ := h.near
  have hfar : t.far = s.far := by rw [h.frame]
  have hchunk (c : Coord) : t.chunk? c
      = (s.resident? c).map fun r => (g r).chunk := by
    rw [StreamState.chunk?, StreamState.resident?, hg, Table.get?_mapValues,
      Option.map_map]
    rfl
  have hcopy {c : Coord} {r : Resident} (hr : s.resident? c = some r) :
      Resident.SameCopy r (g r) :=
    (hgood r (Table.mem_values_of_get?_eq_some hr)).2
  refine ⟨⟨?_, fun c => .inl (by rw [hfar])⟩, ⟨?_, ?_, ?_⟩, by rw [hfar],
    fun c => by rw [h.frame]; rfl⟩
  · intro c
    rw [StreamState.copy?, StreamState.copy?, hchunk, hfar, StreamState.chunk?]
    cases hr : s.resident? c with
    | none => rfl
    | some r => simp [(hcopy hr).2]
  · intro c chunk h
    rw [hchunk] at h
    obtain ⟨r, hr, rfl⟩ := Option.map_eq_some_iff.1 h
    have hintact := hs.intact c r.chunk (StreamState.chunk?_of_resident? hr)
    obtain ⟨hcoord, hsame⟩ := hcopy hr
    exact hintact.congr hcoord (congrArg Prod.snd hsame)
  · rw [hfar]
    exact hs.filed
  · intro hne
    rw [hfar]
    apply hs.opened
    rintro hnil
    rw [hg, hnil] at hne
    exact hne rfl

/-- What an act may do to the copy of a coordinate: it leaves it as it is, or
the worker makes the first one, or the resident chunk is finished by the worker
or edited by somebody who holds it. -/
inductive Session.CopyStep (setup : Setup FarStore) (c : Coord)
    (s t : Session FarStore) : Act → Prop
  | kept {a : Act}
      (h : t.provider.state.copy? c = s.provider.state.copy? c) :
      CopyStep setup c s t a
  | made {chunk : Chunk} (hnone : s.provider.state.copy? c = none)
      (hchunk : setup.generator.generate c = .ok chunk)
      (h : t.provider.state.chunk? c = some chunk) : CopyStep setup c s t .work
  | finished {old : Chunk} (hold : s.provider.state.chunk? c = some old)
      (h : t.provider.state.chunk? c
        = some (Production.finished (setup.generator.finish old))) :
      CopyStep setup c s t .work
  | edited {d : Coord} {e : Edit} {r : Resident} {next : Chunk}
      (hr : s.provider.state.resident? c = some r)
      (hhandle : s.handle? d = some r.age)
      (happly : e.apply r.chunk = .ok (some next))
      (h : t.provider.state.chunk? c = some next) :
      CopyStep setup c s t (.edit d e)

/-- No act takes a copy away. -/
theorem Session.CopyStep.isSome {s t : Session FarStore} {a : Act}
    (h : s.CopyStep setup c t a)
    (hs : (s.provider.state.copy? c).isSome = true) :
    (t.provider.state.copy? c).isSome = true := by
  cases h with
  | kept h => rwa [h]
  | made _ _ h => rw [StreamState.copy?_of_chunk? h]; rfl
  | finished _ h => rw [StreamState.copy?_of_chunk? h]; rfl
  | edited _ _ _ h => rw [StreamState.copy?_of_chunk? h]; rfl

namespace Stocked

variable {s t : Session FarStore} {a : Act}

theorem handling (hs : Stocked s.provider) {u : StreamState FarStore}
    (hclaims : Claims (s.provider.modifyState fun _ => u))
    (hu : Handled Resident.SameCopy s.provider.state u)
    (ht : t.provider = s.provider.modifyState fun _ => u) :
    Stocked t.provider ∧ Carried s.provider.state t.provider.state := by
  have hconserved := Conserved.of_handled hs.sound hu
  have hstocked := hs.conserved hclaims (hs.aged.of_handled hu) hconserved id
    fun t ht _ => ht
  rw [ht]
  exact ⟨hstocked, hconserved.toCarried⟩

/-- A change in hands changes the resident chunk of that handle, and no
other. -/
theorem chunk?_adjust (hs : WellAged s.provider.state) {handle : Nat}
    {chunk : Chunk} (hfound : s.chunk? handle = some chunk) (next : Chunk)
    (c : Coord) :
    (s.adjust handle fun _ => next).provider.state.chunk? c
        = s.provider.state.chunk? c
      ∨ ∃ r, s.provider.state.resident? c = some r ∧ r.age = handle
        ∧ r.chunk = chunk
        ∧ (s.adjust handle fun _ => next).provider.state.chunk? c
          = some next := by
  have hafter : (s.adjust handle fun _ => next).provider.state.resident? c
      = (s.provider.state.resident? c).map fun r =>
        if r.age = handle then { r with chunk := next } else r :=
    Table.get?_mapValues s.provider.state.near
      (fun r => if r.age = handle then Resident.mk next r.age else r) c
  rw [StreamState.chunk?, hafter, StreamState.chunk?]
  cases hr : s.provider.state.resident? c with
  | none => exact .inl rfl
  | some r =>
    have hmem : r ∈ Table.values s.provider.state.near :=
      Table.mem_values_of_get?_eq_some hr
    by_cases hage : r.age = handle
    · rw [← hage] at hfound
      obtain ⟨r', hr', hage', rfl⟩ :=
        Session.exists_resident_of_chunk? hmem hfound
      exact .inr ⟨r, rfl, hage, by rw [hs.eq_of_age_eq hr' hmem hage'],
        by simp [hage]⟩
    · exact .inl (by simp [hage])

/-- An edit changes the resident chunk that it is for, and no other. -/
theorem edit (hs : Stocked s.provider) {d : Coord} {e : Edit}
    (he : e ≠ .release) :
    Stocked (s.step setup (.edit d e)).provider
      ∧ ∀ c, s.CopyStep setup c (s.step setup (.edit d e)) (.edit d e) := by
  have hclaims : Claims (s.step setup (.edit d e)).provider :=
    hs.claims.step (.edit d e)
  rcases Session.edit_cases setup d e s with
    hsame | ⟨handle, chunk, next, hhandle, hfound, happly, hstep⟩
  · rw [hsame]
    exact ⟨hs, fun c => .kept (by rw [hsame])⟩
  rw [hstep] at hclaims ⊢
  have hcases := chunk?_adjust hs.aged hfound next
  have hfar : (s.adjust handle fun _ => next).provider.state.far
      = s.provider.state.far := rfl
  have hcopy : ∀ c, s.CopyStep setup c (s.adjust handle fun _ => next)
      (.edit d e) := by
    intro c
    rcases hcases c with hsame | ⟨r, hr, rfl, rfl, hnext⟩
    · exact .kept (StreamState.copy?_congr hsame hfar)
    · exact .edited hr hhandle happly hnext
  refine ⟨hs.held hclaims ?_ ⟨?_, hs.sound.filed, ?_⟩ ?_ hs.stopped
    (fun t ht _ => ht) (fun _ => rfl), hcopy⟩
  · obtain ⟨u, hu, hmodified⟩ := Session.handled_adjust
      (P := fun _ _ => True) (s := s) (fun _ => trivial) handle (fun _ => next)
      fun _ _ _ => trivial
    rw [hmodified]
    exact hs.aged.of_handled hu
  · intro c chunk' hchunk'
    rcases hcases c with hsame | ⟨r, hr, rfl, rfl, hnext⟩
    · exact hs.sound.intact c chunk' (hsame.symm.trans hchunk')
    · have hintact := hs.sound.intact c r.chunk
        (StreamState.chunk?_of_resident? hr)
      rw [hnext, Option.some.injEq] at hchunk'
      rw [← hchunk']
      exact Edit.intact_apply hintact he happly
  · intro hne
    apply hs.sound.opened
    intro hnil
    apply hne
    show Table.mapValues s.provider.state.near
      (fun r => if r.age = handle then Resident.mk next r.age else r) = []
    rw [hnil]
    rfl
  · intro c
    rcases hcases c with hsame | ⟨r, hr, -, -, hnext⟩
    · rw [StreamState.copy?_congr hsame hfar]
    · have hchunk := StreamState.chunk?_of_resident? hr
      rw [StreamState.copy?_of_chunk? hnext, StreamState.copy?_of_chunk? hchunk]
      rfl

/-! ## Runs -/

theorem step_work (hs : Stocked s.provider) (htier : setup.tier = FarStore.tier)
    (hgenerator : setup.generator.Faithful) :
    Stocked (s.step setup .work).provider
      ∧ Handed setup s.provider.state
        (s.step setup .work).provider.state := by
  have hstep : (s.step setup .work).provider
      = (s.provider.work? setup).getD s.provider := rfl
  cases h : s.provider.work? setup with
  | none =>
    rw [hstep, h, Option.getD_none]
    exact ⟨hs, .conserved (.refl hs.sound)⟩
  | some q =>
    rw [hstep, h, Option.getD_some]
    exact hs.work htier hgenerator h

/-- What is neither work nor an edit leaves every copy as it is. -/
theorem step_passive (hs : Stocked s.provider)
    (htier : setup.tier = FarStore.tier) (hwork : a ≠ .work)
    (hedit : ∀ c e, a ≠ .edit c e) :
    Stocked (s.step setup a).provider
      ∧ Carried s.provider.state (s.step setup a).provider.state := by
  have hclaims : Claims (s.step setup a).provider := hs.claims.step a
  by_cases hcall : a.isCall = true
  · obtain ⟨hq, hconserved⟩ :=
      hs.asks htier (Session.asks_step setup hcall hwork s)
    exact ⟨hq, hconserved.toCarried⟩
  cases a with
  | lock c =>
    obtain ⟨u, hu, h⟩ := Session.handled_lock (P := Resident.SameCopy)
      (fun _ => ⟨rfl, rfl⟩)
      (fun _ _ _ h h' => ⟨h'.1.trans h.1, h'.2.trans h.2⟩)
      (fun _ => ⟨rfl, rfl⟩) (fun _ => ⟨rfl, rfl⟩) c s
    exact hs.handling (h ▸ hclaims) hu h
  | unlock c =>
    obtain ⟨u, hu, h⟩ := Session.handled_unlock (P := Resident.SameCopy)
      (fun _ => ⟨rfl, rfl⟩) (fun _ => ⟨rfl, rfl⟩) c s
    exact hs.handling (h ▸ hclaims) hu h
  | edit c e => exact absurd rfl (hedit c e)
  | update =>
    obtain ⟨hq, hconserved⟩ := hs.update htier s.position
    exact ⟨hq, hconserved.toCarried⟩
  | markReady c =>
    have hconserved : Conserved s.provider.state
        (s.step setup (.markReady c)).provider.state :=
      .of_same hs.sound rfl rfl fun _ => rfl
    exact ⟨hs.conserved hclaims (hs.aged.of_near rfl rfl) hconserved id
      fun t ht _ => ht, hconserved.toCarried⟩
  | dispose => exact hs.dispose htier
  | _ => simp [Act.isCall] at hcall

theorem step (hs : Stocked s.provider) (htier : setup.tier = FarStore.tier)
    (hgenerator : setup.generator.Faithful) (ha : a.keepsContent = true) :
    Stocked (s.step setup a).provider
      ∧ ∀ c, s.CopyStep setup c (s.step setup a) a := by
  by_cases hwork : a = .work
  · subst hwork
    obtain ⟨hq, hhanded⟩ := hs.step_work htier hgenerator
    refine ⟨hq, fun c => ?_⟩
    cases hhanded with
    | conserved h => exact .kept (h.copy c)
    | @made d chunk hnone hchunk h _ =>
      by_cases hc : c = d
      · subst hc
        exact .made hnone hchunk (by rw [h.chunk, if_pos rfl])
      · exact .kept (h.copy_of_ne hc)
    | @finished d old hold _ h _ =>
      by_cases hc : c = d
      · subst hc
        exact .finished hold (by rw [h.chunk, if_pos rfl])
      · exact .kept (h.copy_of_ne hc)
  by_cases hedit : ∃ d e, a = .edit d e
  · obtain ⟨d, e, rfl⟩ := hedit
    refine hs.edit ?_
    rintro rfl
    cases ha
  · obtain ⟨hq, hcarried⟩ := hs.step_passive htier hwork
      fun d e h => hedit ⟨d, e, h⟩
    exact ⟨hq, fun c => .kept (hcarried.copy c)⟩

theorem start {far : FarStore} {world : String} {workers : Nat}
    (hopen : far.closed = false) (hfiled : far.Filed)
    (hstart : Provider.start setup world workers far = .ok p) : Stocked p := by
  obtain ⟨hnote, hqueue, -, -⟩ := Provider.start_spec hstart
  have hnear : p.state.near = [] := hnote.sameStock.near
  have hfar : p.state.far = far := hnote.sameStock.far
  refine ⟨Claims.start hstart, .of_near_eq_nil hnear, ⟨?_, ?_, ?_⟩, ?_, ?_, ?_,
    ?_⟩
  · intro c chunk h
    exact absurd hnear (StreamState.near_ne_nil_of_chunk? h)
  · rw [hfar]
    exact hfiled
  · exact fun h => absurd hnear h
  · intro hclosed
    rw [hfar, hopen] at hclosed
    cases hclosed
  · intro c hc
    rw [hqueue] at hc
    cases hc
  · intro c hc
    rw [hqueue] at hc
    cases hc
  · intro c
    rw [hnote.generated]
    exact Nat.zero_le _

theorem run (hs : Stocked s.provider) (htier : setup.tier = FarStore.tier)
    (hgenerator : setup.generator.Faithful) {acts : List Act}
    (hacts : ∀ a ∈ acts, a.keepsContent = true) :
    Stocked (s.run setup acts).provider
      ∧ ∀ c, (s.provider.state.copy? c).isSome = true →
        ((s.run setup acts).provider.state.copy? c).isSome = true := by
  apply Session.run_preserve (P := fun t => Stocked t.provider ∧ ∀ c,
    (s.provider.state.copy? c).isSome = true →
      (t.provider.state.copy? c).isSome = true) ⟨hs, fun _ => id⟩
  rintro a ha t ⟨ht, hkept⟩
  obtain ⟨hnext, hcopy⟩ := ht.step htier hgenerator (hacts a ha)
  exact ⟨hnext, fun c hc => (hcopy c).isSome (hkept c hc)⟩

end Stocked

/-- Over an open store whose entries were made by puts, with a generator that
makes intact chunks, no run in which nobody outside releases a chunk loses
anything.  A coordinate that has been resident is resident or stored ever after;
an act changes a copy only by making the first one, or by finishing or editing
the resident chunk; and the generator makes the chunk of a coordinate at most
once. -/
theorem no_chunk_lost (htier : setup.tier = FarStore.tier)
    (hgenerator : setup.generator.Faithful) {far : FarStore} {world : String}
    {workers : Nat} (hopen : far.closed = false) (hfiled : far.Filed)
    (hstart : Provider.start setup world workers far = .ok p) {acts : List Act}
    (hacts : ∀ a ∈ acts, a.keepsContent = true) :
    let s := (Session.ofProvider p).run setup acts
    (∀ acts' : List Act, (∀ a ∈ acts', a.keepsContent = true) →
        ∀ c, s.provider.state.isResident c = true →
          (s.run setup acts').provider.state.isResident c = true
            ∨ (s.run setup acts').provider.state.far.contains c = true)
      ∧ (∀ a : Act, a.keepsContent = true →
        ∀ c, s.CopyStep setup c (s.step setup a) a)
      ∧ ∀ c, s.provider.state.generated c ≤ 1 := by
  intro s
  have hs : Stocked s.provider :=
    (Stocked.run (s := .ofProvider p) (Stocked.start hopen hfiled hstart) htier
      hgenerator hacts).1
  refine ⟨?_, ?_, ?_⟩
  · intro acts' hacts' c hc
    obtain ⟨hend, hkept⟩ := hs.run htier hgenerator hacts'
    have hcopy := (hs.sound.isSome_copy? c).2 (.inl hc)
    exact (hend.sound.isSome_copy? c).1 (hkept c hcopy)
  · intro a ha
    exact (hs.step htier hgenerator ha).2
  · intro c
    refine (hs.generated c).trans ?_
    split
    · exact Nat.le_refl 1
    · exact Nat.zero_le 1

/-- The origin is edited and locked during one update and unlocked before the
next one. -/
def Act.editOrigin : List Act :=
  [.edit .origin (.block ⟨0, 1, 0⟩ .stone), .lock .origin, .update,
    .unlock .origin, .update]

/-- With a budget of no chunks the edited chunk is evicted by the second update,
and so it is stored. -/
theorem no_chunk_lost_of_editOrigin :
    let made := (Session.ofProvider (.stored 0)).run (Setup.stored 0)
      [.request .origin, .work]
    let s := made.run (Setup.stored 0) Act.editOrigin
    made.provider.state.isResident .origin = true
      ∧ s.provider.state.isResident .origin = false
      ∧ s.provider.state.far.contains .origin = true := by
  intro made s
  have hmade : made.provider.state.isResident .origin = true := by
    decide +kernel
  have hgone : s.provider.state.isResident .origin = false := by
    decide +kernel
  have hgenerator : (Setup.stored 0).generator.Faithful :=
    Script.faithful fun _ h => by cases h
  have hmaking : ∀ a ∈ [.request .origin, .work], Act.keepsContent a = true :=
    by decide
  have hediting : ∀ a ∈ Act.editOrigin, a.keepsContent = true := by decide
  have hkept := (no_chunk_lost rfl hgenerator rfl FarStore.filed_empty
    (start_stored 0) hmaking).1 _ hediting .origin hmade
  refine ⟨hmade, hgone, hkept.resolve_left ?_⟩
  rw [Bool.not_eq_true]
  exact hgone

end ChunkStream
