import ChunkStream.Proofs.Store.Reading
import ChunkStream.Proofs.Streaming.Provenance
import ChunkStream.Proofs.Streaming.Teardown

/-!
# Chunks in their places

A chunk has its coordinate in three places: the key it is resident under, the
key it is stored under and the coordinate in its payload.  Loading goes by the
stored key, and storing by the chunk's own coordinate, which was in the payload.
Where the payloads of an artifact agree with its keys, the three agree for good,
as no act parts them; a single payload that does not is enough for a chunk to
be resident in another's place, and to be stored over the other when it is
evicted.
-/

namespace ChunkStream

open FarStore (Took)

/-! ## Generators and edits -/

/-- What the generator makes is proper, and finishing leaves it so, also when
the content has been released before. -/
structure Generator.Proper (g : Generator) : Prop where
  generate : ∀ c chunk, g.generate c = .ok chunk → chunk.Proper c
  finish : ∀ c chunk, chunk.Proper c → (g.finish chunk).1.Proper c

theorem Generator.IsTerrain.proper {g : Generator} (hg : g.IsTerrain)
    (hfits : g.Fits) : g.Proper where
  generate c chunk h := by
    obtain ⟨_, completion, b, hgrown⟩ := hg.grown h
    obtain rfl := hgrown.chunk
    have hb := hgrown.storable (hfits c _ b h rfl)
    rw [Chunk.proper_ofBuffer_iff hb]
    exact ⟨hgrown.coord, hgrown.full.blocks⟩
  finish c chunk h := by
    cases hg with
    | flat f => exact h
    | heightfield heights p =>
      show (Heightfield.finish chunk).1.Proper c
      cases hcontent : chunk.content with
      | none =>
        simp only [Heightfield.finish, hcontent]
        exact h
      | some b =>
        rw [Heightfield.fst_finish hcontent]
        refine h.reshape rfl fun b' hb' => ⟨b, hcontent, ?_⟩
        cases hb'
        exact Heightfield.sameShape_laySand b

theorem Generator.Proper.finished {g : Generator} (hg : g.Proper) {c : Coord}
    {chunk : Chunk} (h : chunk.Proper c) :
    (Production.finished (g.finish chunk)).Proper c :=
  (hg.finish c chunk h).congr (Production.coord_finished _)
    (Production.content_finished _)

theorem Edit.proper_apply {c : Coord} {e : Edit} {chunk next : Chunk}
    (hchunk : chunk.Proper c) (h : e.apply chunk = .ok (some next)) :
    next.Proper c := by
  cases e with
  | completion tag =>
    cases h
    exact hchunk.congr rfl rfl
  | release =>
    cases h
    exact hchunk.reshape rfl fun _ hb => by cases hb
  | block cell block =>
    cases hcontent : chunk.content with
    | none =>
      rw [apply, Chunk.set, hcontent] at h
      cases h
    | some b =>
      rw [apply, Chunk.set, hcontent] at h
      obtain ⟨b', hset, h⟩ := exists_of_bind_eq_ok h
      cases h
      refine hchunk.reshape rfl fun b'' hb'' => ⟨b, hcontent, ?_⟩
      cases hb''
      exact Buffer.sameShape_set hset

/-- The change leaves a proper chunk proper. -/
def Resident.StaysProper (r r' : Resident) : Prop :=
  ∀ c, r.chunk.Proper c → r'.chunk.Proper c

/-! ## States -/

/-- The chunks in both tiers are proper. -/
structure StreamState.Proper (s : StreamState FarStore) : Prop where
  near : ∀ c chunk, s.chunk? c = some chunk → chunk.Proper c
  far : s.far.Proper

/-- Each chunk is where it was, and so is what is stored under its coordinate,
or it has been put there and is no longer resident. -/
def StreamState.Shelved (s t : StreamState FarStore) : Prop :=
  ∀ c, t.chunk? c = s.chunk? c
      ∧ Table.get? t.far.entries c = Table.get? s.far.entries c
    ∨ ∃ chunk b, s.chunk? c = some chunk ∧ chunk.content = some b
      ∧ t.chunk? c = none ∧ Table.get? t.far.entries c
        = some ⟨chunk.completion, Payload.encode b⟩

variable {setup : Setup FarStore} {s t u : StreamState FarStore} {c : Coord}
  {chunk : Chunk}

namespace StreamState

theorem Proper.of_same (hs : s.Proper) (hnear : t.near = s.near)
    (hfar : t.far = s.far) : t.Proper where
  near c chunk h := hs.near c chunk ((chunk?_congr hnear c).symm.trans h)
  far := by
    rw [hfar]
    exact hs.far

theorem Proper.reorder (hs : s.Proper) (haged : WellAged s)
    (h : s.Reordered t) : t.Proper where
  near c chunk hchunk := hs.near c chunk (h.chunk? haged c ▸ hchunk)
  far := by
    rw [h.frame]
    exact hs.far

theorem Proper.replaced (hs : s.Proper) (h : Replaced c chunk s t)
    (hchunk : chunk.Proper c) : t.Proper where
  near d chunk' hd := by
    rw [h.chunk] at hd
    by_cases hdc : d = c
    · rw [if_pos hdc, Option.some.injEq] at hd
      rw [hdc, ← hd]
      exact hchunk
    · rw [if_neg hdc] at hd
      exact hs.near d chunk' hd
  far := by
    rw [h.far]
    exact hs.far

theorem Proper.handled (hs : s.Proper)
    (h : Handled Resident.StaysProper s t) : t.Proper where
  near c chunk hchunk := by
    obtain ⟨g, hg, hgood⟩ := h.near
    have hget : t.resident? c = (s.resident? c).map g := by
      rw [resident?, hg, Table.get?_mapValues]
      rfl
    rw [chunk?, hget, Option.map_map] at hchunk
    obtain ⟨r, hr, rfl⟩ := Option.map_eq_some_iff.1 hchunk
    exact (hgood r (Table.mem_values_of_get?_eq_some hr)).2 c
      (hs.near c r.chunk (chunk?_of_resident? hr))
  far := by
    rw [h.frame]
    exact hs.far

theorem Shelved.of_same (hnear : t.near = s.near) (hfar : t.far = s.far) :
    Shelved s t :=
  fun c => .inl ⟨chunk?_congr hnear c, by rw [hfar]⟩

theorem Shelved.trans (h : Shelved s t) (h' : Shelved t u) : Shelved s u := by
  intro c
  rcases h' c with ⟨hchunk', hentry'⟩ | ⟨chunk, b, hchunk', hb, hgone, hentry⟩
  · rw [hchunk', hentry']
    exact h c
  · rcases h c with ⟨hchunk, -⟩ | ⟨-, -, -, -, hnone, -⟩
    · exact .inr ⟨chunk, b, hchunk ▸ hchunk', hb, hgone, hentry⟩
    · rw [hnone] at hchunk'
      cases hchunk'

end StreamState

/-! ## Evictions -/

/-- Whoever is evicted is stored under its own coordinate, and what is stored
under any other is left alone. -/
theorem Eviction.evict_own (htier : setup.tier = FarStore.tier)
    (h : evict setup c s = (true, t)) :
    ∃ chunk b, s.chunk? c = some chunk ∧ chunk.content = some b
      ∧ (∀ d, t.chunk? d = if d = c then none else s.chunk? d)
      ∧ ∀ d, Table.get? t.far.entries d = if chunk.coord = d
        then some ⟨chunk.completion, Payload.encode b⟩
        else Table.get? s.far.entries d := by
  rcases evict_cases setup c s with
    ⟨u, -, hevict⟩ | ⟨u, chunk, hchunk, hput, hswept, hevict⟩
  · rw [hevict] at h
    cases h
  · rw [hevict] at h
    cases h
    rw [htier] at hput
    obtain ⟨b, htook⟩ := FarStore.took_of_put hput
    refine ⟨chunk, b, hchunk, htook.content, ?_, htook.get?_entries⟩
    simpa only [List.mem_singleton] using hswept.chunk?

namespace StreamState.Proper

theorem evict (hs : s.Proper) (htier : setup.tier = FarStore.tier)
    (c : Coord) :
    (Eviction.evict setup c s).2.Proper
      ∧ Shelved s (Eviction.evict setup c s).2 := by
  rcases Eviction.evict_cases setup c s with
    ⟨t, hnote, hevict⟩ | ⟨t, chunk, hchunk, hput, -, hevict⟩
  · have hnear := hnote.sameStock.near
    have hfar := hnote.sameStock.far
    rw [hevict]
    exact ⟨hs.of_same hnear hfar, .of_same hnear hfar⟩
  · obtain ⟨chunk', b, hchunk', hb, hchunks, hentries⟩ :=
      Eviction.evict_own htier hevict
    have hproper := hs.near c chunk' hchunk'
    rw [hproper.coord] at hentries
    rw [htier] at hput
    rw [hevict]
    refine ⟨⟨?_, hs.far.put (hs.near c chunk hchunk) hput⟩, ?_⟩
    · intro d chunk'' hd
      rw [hchunks] at hd
      split at hd
      · cases hd
      · exact hs.near d chunk'' hd
    · intro d
      by_cases hd : d = c
      · subst hd
        exact .inr ⟨chunk', b, hchunk', hb, by rw [hchunks, if_pos rfl],
          by rw [hentries, if_pos rfl]⟩
      · exact .inl ⟨by rw [hchunks, if_neg hd],
          by rw [hentries, if_neg (Ne.symm hd)]⟩

/-- What is left of an update once the observers have been followed moves
chunks to where they belong. -/
theorem compact (hs : s.Proper) (htier : setup.tier = FarStore.tier) :
    (Provider.compact setup (Provider.drainSignals s)).Proper
      ∧ Shelved s (Provider.compact setup (Provider.drainSignals s)) := by
  have hdrain := Published.drainSignals s
  have hswept : (sweptState setup (Provider.drainSignals s)).Proper
      ∧ Shelved s (sweptState setup (Provider.drainSignals s)) := by
    refine Eviction.sweep_preserve (P := fun t => t.Proper ∧ Shelved s t)
      ?_ ?_ ⟨hs.of_same hdrain.near hdrain.far, .of_same hdrain.near hdrain.far⟩
    · rintro t m n ⟨ht, hshelved⟩
      exact ⟨ht.of_same rfl rfl, hshelved.trans (.of_same rfl rfl)⟩
    · rintro t c ⟨ht, hshelved⟩
      obtain ⟨hnext, hstep⟩ := ht.evict htier c
      exact ⟨hnext, hshelved.trans hstep⟩
  have hsame := sameStock_compact setup (Provider.drainSignals s)
  exact ⟨hswept.1.of_same hsame.near hsame.far,
    hswept.2.trans (.of_same hsame.near hsame.far)⟩

/-! ## The end -/

/-- A chunk that was offered to the far tier is dismissed. -/
theorem dismiss (hs : s.Proper) (hnear : t.near = s.near)
    (hfar : t.far.Proper) (c : Coord) : (t.dismiss c).Proper where
  near d chunk hd := by
    rw [chunk?, resident?, near_dismiss, hnear, Table.get?_erase] at hd
    split at hd
    · cases hd
    · exact hs.near d chunk hd
  far := by rwa [far_dismiss]

theorem flushChunk (hs : s.Proper) (htier : setup.tier = FarStore.tier)
    (c : Coord) (n : Nat) : (Provider.flushChunk setup (n, s) c).2.Proper := by
  cases hchunk : s.chunk? c with
  | none =>
    simp only [Provider.flushChunk, hchunk]
    exact hs
  | some chunk =>
    obtain ⟨js, -, hflush⟩ := Provider.flushChunk_of_chunk? setup hchunk n
    rw [hflush, htier]
    cases hput : FarStore.tier.put chunk s.far with
    | error cause =>
      apply hs.dismiss
      · rfl
      · exact hs.far
    | ok far =>
      apply hs.dismiss
      · rfl
      · exact hs.far.put (hs.near c chunk hchunk) hput

end StreamState.Proper

/-- A flush keeps chunks proper and leaves none resident. -/
theorem StreamState.Proper.flush (hs : s.Proper)
    (htier : setup.tier = FarStore.tier) :
    (Provider.flush setup s).2.Proper
      ∧ (Provider.flush setup s).2.near = [] := by
  have hfold (cs : List Coord) (acc : Nat × StreamState FarStore)
      (hacc : acc.2.Proper) :
      (cs.foldl (Provider.flushChunk setup) acc).2.Proper := by
    induction cs generalizing acc with
    | nil => exact hacc
    | cons c cs ih => exact ih _ (hacc.flushChunk htier c acc.1)
  exact ⟨hfold (Table.keys s.near) (0, s) hs,
    congrArg StreamState.near (Provider.flush_frame setup s)⟩

/-! ## Runs -/

/-- The chunks of a provider are proper, besides what claims and ages are
always like. -/
structure Provider.Proper (p : Provider FarStore) : Prop where
  claims : Claims p
  aged : WellAged p.state
  state : p.state.Proper

namespace Provider.Proper

variable {p q : Provider FarStore}

theorem asks (hp : Proper p) (h : Asks setup p q) : q.state.Proper :=
  hp.state.of_same (h.near_eq hp.claims)
    (Undisturbed.advances hp.claims h.advances).far

theorem work (hp : Proper p) (htier : setup.tier = FarStore.tier)
    (hgenerator : setup.generator.Proper) (h : p.work? setup = some q) :
    q.state.Proper := by
  obtain ⟨t, queue, u, completed, failed, hpop, hnote, rfl⟩ :=
    Provider.work?_spec h
  have hperm := TaskQueue.perm_pop hp.claims.ticketed hpop
  have hfree (hreview : t.isReview = false) :
      p.state.isResident t.coord = false :=
    hp.claims.absent _ (hp.claims.perm.mem_iff.2 (Task.mem_productions.2
      ⟨t, hperm.mem_iff.2 List.mem_cons_self, hreview, rfl⟩))
  have hfar := (Production.run_frame setup p.pipeline.cancelled t p.state).2
  have hrun : (Production.run setup p.pipeline.cancelled t
      p.state).state.Proper := by
    cases hreview : t.isReview with
    | true =>
      obtain ⟨c, rfl⟩ := Task.exists_review hreview
      rcases Production.review_copies setup c p.state with
        hnear | ⟨old, hold, -, hreplaced⟩
      · exact hp.state.of_same hnear hfar
      · exact hp.state.replaced hreplaced
          (hgenerator.finished (hp.state.near c old hold))
    | false =>
      rw [Production.run_production _ hreview] at hfar ⊢
      rcases Production.produce_copies setup p.pipeline.cancelled t
          (hfree hreview) with
        ⟨-, hnear, -⟩ | ⟨chunk, hgot, hreplaced, -⟩
      · exact hp.state.of_same hnear hfar
      · apply hp.state.replaced hreplaced
        cases t with
        | load c =>
          rw [Production.Acquires, htier] at hgot
          exact hp.state.far c chunk hgot
        | generate c => exact hgenerator.generate c chunk hgot
        | review c => cases hreview
  exact hrun.of_same hnote.sameStock.near hnote.sameStock.far

theorem update (hp : Proper p) (htier : setup.tier = FarStore.tier)
    (positions : ObserverId → Option Coord) :
    (p.update setup positions).state.Proper
      ∧ p.state.Shelved (p.update setup positions).state := by
  have hasks := asks_publishing setup positions p
  have hnear := hasks.near_eq hp.claims
  have hfar := (Undisturbed.advances hp.claims hasks.advances).far
  obtain ⟨hproper, hshelved⟩ := (hp.asks hasks).compact htier
  rw [update_eq]
  exact ⟨hproper, (StreamState.Shelved.of_same hnear hfar).trans hshelved⟩

theorem dispose (hp : Proper p) (htier : setup.tier = FarStore.tier) :
    Proper (p.dispose setup) := by
  have hclaims : Claims (p.dispose setup) := hp.claims.dispose
  cases hdisposed : p.disposed with
  | true =>
    rw [dispose_of_disposed hdisposed]
    exact hp
  | false =>
    have hframe := (shutdown_frame setup p).1
    have hnear := congrArg StreamState.near hframe
    have hfar := congrArg StreamState.far hframe
    obtain ⟨hproper, hempty⟩ := (hp.state.of_same hnear hfar).flush htier
    have hstate : (p.dispose setup).state.near = []
        ∧ (p.dispose setup).state.far.Proper := by
      simp only [Provider.dispose, hdisposed, Bool.false_eq_true, if_false,
        htier]
      cases setup.obstacle <;> exact ⟨hempty, hproper.far⟩
    refine ⟨hclaims, .of_near_eq_nil hstate.1, ?_, hstate.2⟩
    intro c chunk hchunk
    exact absurd hstate.1 (StreamState.near_ne_nil_of_chunk? hchunk)

variable {s : Session FarStore} {a : Act}

theorem handling (hs : Proper s.provider) (setup : Setup FarStore)
    (ha : a.isHandling = true) : (s.step setup a).provider.state.Proper := by
  have hhandled : ∃ t, Handled Resident.StaysProper s.provider.state t
      ∧ (s.step setup a).provider = s.provider.modifyState fun _ => t := by
    cases a with
    | lock c =>
      exact Session.handled_lock (P := Resident.StaysProper) (fun _ _ => id)
        (fun _ _ _ h h' c => h' c ∘ h c) (fun _ _ h => h.congr rfl rfl)
        (fun _ _ h => h.congr rfl rfl) c s
    | unlock c =>
      exact Session.handled_unlock (P := Resident.StaysProper) (fun _ _ => id)
        (fun _ _ h => h.congr rfl rfl) c s
    | edit c e =>
      refine Session.handled_edit (P := Resident.StaysProper) (fun _ _ => id)
        ?_ c
      intro r hr r' hr' hage next happly d hd
      obtain rfl := hs.aged.eq_of_age_eq hr' hr hage
      exact Edit.proper_apply hd happly
    | _ => simp [Act.isHandling] at ha
  obtain ⟨t, ht, h⟩ := hhandled
  rw [h]
  exact hs.state.handled ht

theorem step (hs : Proper s.provider) (htier : setup.tier = FarStore.tier)
    (hgenerator : setup.generator.Proper) (a : Act) :
    Proper (s.step setup a).provider := by
  by_cases hdispose : a = .dispose
  · subst hdispose
    exact hs.dispose htier
  refine ⟨hs.claims.step a, hs.aged.step hs.claims hdispose, ?_⟩
  by_cases hhandling : a.isHandling = true
  · exact hs.handling setup hhandling
  by_cases hwork : a = .work
  · subst hwork
    have hstep : (s.step setup .work).provider
        = (s.provider.work? setup).getD s.provider := rfl
    rw [hstep]
    cases h : s.provider.work? setup with
    | none => exact hs.state
    | some q => exact hs.work htier hgenerator h
  by_cases hcall : a.isCall = true
  · exact hs.asks (Session.asks_step setup hcall hwork s)
  cases a with
  | update => exact (hs.update htier s.position).1
  | markReady c => exact hs.state.of_same rfl rfl
  | dispose => exact absurd rfl hdispose
  | _ => simp [Act.isCall, Act.isHandling] at hcall hhandling

theorem run (hs : Proper s.provider) (htier : setup.tier = FarStore.tier)
    (hgenerator : setup.generator.Proper) (acts : List Act) :
    Proper (s.run setup acts).provider :=
  Session.run_preserve (P := fun t => Proper t.provider) hs
    fun a _ _ ht => ht.step htier hgenerator a

theorem start {far : FarStore} {world : String} {workers : Nat}
    (hfar : far.Proper) (hstart : Provider.start setup world workers far
      = .ok p) : Proper p := by
  have hsame := (Provider.start_spec hstart).1.sameStock
  refine ⟨Claims.start hstart, .of_near_eq_nil hsame.near, ?_, ?_⟩
  · intro c chunk hchunk
    exact absurd hsame.near (StreamState.near_ne_nil_of_chunk? hchunk)
  · rw [hsame.far]
    exact hfar

end Provider.Proper

/-! ## What can be read can be had -/

section Load

variable {p : Provider FarStore} {far : FarStore} {world : String}
  {workers : Nat}

/-- The first request of a provider claims. -/
theorem Provider.requestChunk_start
    (hstart : Provider.start setup world workers far = .ok p) (c : Coord) :
    p.requestChunk setup c = p.claim setup c
      ∧ (p.claim setup c).pipeline.queue.tasks
        = [taskFor setup c p.state] := by
  have hclaims := Claims.start hstart
  obtain ⟨hnote, hqueue, hopen, -⟩ := start_spec hstart
  have hsame := hnote.sameStock
  constructor
  · rcases requestChunk_cases setup hclaims.closed c with
      ⟨hheld, -⟩ | ⟨-, -, -, h⟩
    · rw [hopen, StreamState.isResident_congr hsame.near, hsame.preparing]
        at hheld
      simp [StreamState.start, StreamState.isResident, StreamState.resident?,
        Table.get?] at hheld
    · exact h
  · rw [tasks_claim, hqueue]
    rfl

/-- A worker with one task runs it. -/
theorem Provider.annotated_of_work? {q : Provider FarStore} {t : Task}
    (hp : Claims p) (htasks : p.pipeline.queue.tasks = [t])
    (h : p.work? setup = some q) : Annotated
      (Production.run setup p.pipeline.cancelled t p.state).state q.state := by
  obtain ⟨t', queue, u, completed, failed, hpop, hnote, rfl⟩ := work?_spec h
  have hmem := (TaskQueue.perm_pop hp.ticketed hpop).mem_iff.2
    List.mem_cons_self
  rw [htasks, List.mem_singleton] at hmem
  exact hmem ▸ hnote

/-- What can be read under a coordinate is resident there once it has been
requested and the worker has made a step. -/
theorem Provider.chunk?_of_get (htier : setup.tier = FarStore.tier)
    (hstart : Provider.start setup world workers far = .ok p)
    (hget : far.get c = .ok (some chunk)) :
    ((Session.ofProvider p).run setup [.request c, .work]).provider.state.chunk?
      c = some chunk := by
  obtain ⟨hnote, -, -, hcancelled⟩ := start_spec hstart
  have hsame := hnote.sameStock
  have hfar : p.state.far = far := hsame.far
  obtain ⟨hclaim, htasks⟩ := requestChunk_start hstart c
  have hclaims : Claims (p.claim setup c) :=
    hclaim ▸ (Claims.start hstart).requestChunk setup c
  have hload : taskFor setup c p.state = .load c := by
    obtain ⟨stored, -, hentry, -⟩ := FarStore.get_eq_some_iff.1 hget
    have hstored : FarStore.tier.contains c p.state.far = true := by
      show (Table.get? p.state.far.entries c).isSome = true
      rw [hfar, hentry]
      rfl
    rw [taskFor, htier, if_pos hstored]
  rw [hload] at htasks
  obtain ⟨q, hq⟩ := exists_work setup hclaims
    (htasks ▸ List.mem_singleton_self _)
  have hran := annotated_of_work? hclaims htasks hq
  have hrun : ((Session.ofProvider p).run setup [.request c, .work]).provider
      = q := by
    show ((p.requestChunk setup c).work? setup).getD _ = q
    rw [hclaim, hq, Option.getD_some]
  have hfree : (p.claim setup c).state.isResident c = false :=
    StreamState.isResident_congr hsame.near c
  have hacquires (chunk' : Chunk) :
      Production.Acquires setup (p.claim setup c).state.far (.load c) chunk'
        ↔ far.get c = .ok (some chunk') := by
    rw [Production.Acquires, htier, ← hfar]
    rfl
  rw [hrun]
  rcases Production.produce_copies setup (p.claim setup c).pipeline.cancelled
      (.load c) hfree with
    ⟨hnothing, -⟩ | ⟨chunk', hgot, hreplaced, -⟩
  · rcases hnothing with hraised | hnothing
    · have hlow : (p.claim setup c).pipeline.cancelled = false := hcancelled
      rw [hlow] at hraised
      cases hraised
    · exact absurd ((hacquires chunk).2 hget) (hnothing chunk)
  · rw [hacquires, hget] at hgot
    cases hgot
    rw [(hreplaced.annotated hran).chunk]
    exact if_pos rfl

end Load

/-- A chunk that is read, or that is resident, is always the one of the
coordinate, with all its blocks, if and only if the artifact is truthful.
Whoever is evicted is stored under the coordinate that it has itself, and under
no other; so over a truthful artifact an update leaves every chunk where it is
or moves it under the coordinate it was resident at, and leaves what is stored
for all others alone. -/
theorem chunks_in_place_iff_truthful (htier : setup.tier = FarStore.tier)
    (hgenerator : setup.generator.Proper) {bytes : List UInt8} {a : Artifact}
    {far : FarStore} {world : String} {workers : Nat} {p : Provider FarStore}
    (hdecode : Artifact.decode bytes = some a)
    (hload : FarStore.load bytes = .ok far)
    (hstart : Provider.start setup world workers far = .ok p) :
    let after (acts : List Act) :=
      ((Session.ofProvider p).run setup acts).provider.state
    ((∀ c chunk, far.get c = .ok (some chunk) → chunk.Proper c) ↔ a.Truthful)
      ∧ ((∀ acts c chunk, (after acts).chunk? c = some chunk →
        chunk.Proper c) ↔ a.Truthful)
      ∧ (∀ acts c t, Eviction.evict setup c (after acts) = (true, t) →
        ∃ chunk b, (after acts).chunk? c = some chunk
          ∧ chunk.content = some b
          ∧ ∀ d, Table.get? t.far.entries d = if chunk.coord = d
            then some ⟨chunk.completion, Payload.encode b⟩
            else Table.get? (after acts).far.entries d)
      ∧ (a.Truthful → ∀ acts,
        (after acts).Shelved (after (acts ++ [.update]))) := by
  intro after
  have hfar := FarStore.proper_iff_truthful hdecode hload
  have hrun (ha : a.Truthful) (acts : List Act) :
      Provider.Proper ((Session.ofProvider p).run setup acts).provider :=
    (Provider.Proper.start (hfar.2 ha) hstart).run (s := .ofProvider p) htier
      hgenerator acts
  refine ⟨hfar, ⟨?_, ?_⟩, ?_, ?_⟩
  · intro hnear
    apply hfar.1
    intro c chunk hget
    exact hnear _ c chunk (Provider.chunk?_of_get htier hstart hget)
  · intro ha acts c chunk
    exact (hrun ha acts).state.near c chunk
  · intro acts c t h
    obtain ⟨chunk, b, hchunk, hb, -, hentries⟩ := Eviction.evict_own htier h
    exact ⟨chunk, b, hchunk, hb, hentries⟩
  · intro ha acts
    have hupdate := ((hrun ha acts).update htier
      ((Session.ofProvider p).run setup acts).position).2
    show (after acts).Shelved
      ((Session.ofProvider p).run setup (acts ++ [.update])).provider.state
    rw [Session.run_concat]
    exact hupdate

/-! ## One record -/

/-- One record of the origin, with a payload of some coordinate. -/
def Artifact.labelled (c : Coord) : Artifact :=
  ⟨1, [⟨.origin, ⟨.complete, Payload.encode ⟨c, .cube 1, #[.dirt]⟩⟩⟩]⟩

theorem Buffer.storable_dirt (c : Coord) :
    Buffer.Storable ⟨c, .cube 1, #[.dirt]⟩ := by
  have hedge : 1 < Size.limit := by decide
  refine ⟨hedge, hedge, hedge, ?_⟩
  rw [Payload.length_encodePlain]
  show 44 + 4 * 1 < Bytes.capacity 4
  decide

theorem Artifact.truthful_labelled_iff (c : Coord) :
    (labelled c).Truthful ↔ c = .origin := by
  have hread := Payload.decode_encode (Buffer.storable_dirt c)
  constructor
  · intro h
    exact (h .origin _ _ rfl hread).1
  · rintro rfl c r b hr hb
    obtain ⟨hmem, rfl⟩ := Table.mem_of_latest?_eq_some hr
    obtain rfl := List.mem_singleton.1 hmem
    rw [hread] at hb
    cases hb
    exact ⟨rfl, rfl⟩

theorem Artifact.decode_labelled (c : Coord) :
    decode (labelled c).encode = some (labelled c) := by
  have hencodable : (labelled c).Encodable := by
    refine ⟨show 1 < Bytes.capacity 4 by decide,
      show 1 < Size.limit by decide, ?_⟩
    intro r hr
    obtain rfl := List.mem_singleton.1 hr
    exact Payload.length_encode_lt (Buffer.storable_dirt c).allocated
  have h := decode_encode hencodable []
  rwa [List.append_nil] at h

/-- The far store with the record. -/
def FarStore.labelled (c : Coord) : FarStore :=
  ofRecords (Artifact.labelled c).records

theorem FarStore.load_labelled (c : Coord) :
    load (Artifact.labelled c).encode = .ok (labelled c) := by
  rw [load_of_decode (Artifact.decode_labelled c)]
  exact if_pos rfl

/-- The provider over that store before anything has happened. -/
def Provider.labelled (c : Coord) : Provider FarStore :=
  (Provider.stored 0).modifyState fun s => { s with far := .labelled c }

theorem start_labelled (c : Coord) :
    Provider.start (Setup.shallows 0) "stored" 1 (.labelled c)
      = .ok (.labelled c) :=
  rfl

/-- With the label of the origin, the chunk comes and goes under the origin.
With another label it is resident at the origin too, and an eviction stores it
under the coordinate of the label, where nothing was stored before. -/
theorem chunks_in_place_iff_truthful_of_labelled :
    let after (c : Coord) (acts : List Act) :=
      ((Session.ofProvider (.labelled c)).run (.shallows 0) acts).provider.state
    let away : Coord := ⟨5, 0, 0⟩
    (after .origin [.request .origin, .work]).Shelved
        (after .origin [.request .origin, .work, .update])
      ∧ (¬ ∀ acts c chunk, (after away acts).chunk? c = some chunk →
        chunk.Proper c)
      ∧ Table.get? (FarStore.labelled away).entries away = none
      ∧ ∃ t, Eviction.evict (.shallows 0) .origin
          (after away [.request .origin, .work]) = (true, t)
        ∧ Table.get? t.far.entries away = some
          ⟨.complete, Payload.encode ⟨away, .cube 1, #[.dirt]⟩⟩ := by
  intro after away
  have hproper : (Setup.shallows 0).generator.Proper :=
    Generator.IsTerrain.proper (.heightfield _ _) fits_shallows
  obtain ⟨-, -, -, hshelved⟩ := chunks_in_place_iff_truthful rfl hproper
    (Artifact.decode_labelled .origin) (FarStore.load_labelled .origin)
    (start_labelled .origin)
  obtain ⟨-, hnear, hown, -⟩ := chunks_in_place_iff_truthful rfl hproper
    (Artifact.decode_labelled away) (FarStore.load_labelled away)
    (start_labelled away)
  have htruthful : (Artifact.labelled .origin).Truthful :=
    (Artifact.truthful_labelled_iff .origin).2 rfl
  have haway : ¬ (Artifact.labelled away).Truthful := by
    rw [Artifact.truthful_labelled_iff]
    decide
  have hget : (FarStore.labelled away).get .origin
      = .ok (some (.ofBuffer ⟨away, .cube 1, #[.dirt]⟩ .complete)) :=
    FarStore.get_of_entry (Buffer.storable_dirt away) rfl
  have hchunk : (after away [.request .origin, .work]).chunk? .origin
      = some (.ofBuffer ⟨away, .cube 1, #[.dirt]⟩ .complete) :=
    Provider.chunk?_of_get rfl (start_labelled away) hget
  have hevict : (Eviction.evict (Setup.shallows 0) .origin
      (after away [.request .origin, .work])).1 = true := by decide +kernel
  refine ⟨hshelved htruthful _, fun h => haway (hnear.1 h), rfl, ?_⟩
  cases hstep : Eviction.evict (Setup.shallows 0) .origin
      (after away [.request .origin, .work]) with
  | mk gone t =>
    rw [hstep] at hevict
    obtain rfl : gone = true := hevict
    obtain ⟨chunk, b, hevicted, hb, hentries⟩ := hown _ .origin t hstep
    rw [hchunk, Option.some.injEq] at hevicted
    subst hevicted
    cases hb
    refine ⟨t, rfl, ?_⟩
    rw [hentries]
    exact if_pos rfl

end ChunkStream
