import ChunkStream.Proofs.Streaming.Custody
import ChunkStream.Proofs.Terrain.Sand

/-!
# Where content comes from

Whatever the schedule, the budget and the evictions were, a chunk that nobody
edits is what the generator made of its coordinate, or that finished once.  The
tag travels with the content through the far tier, a coordinate that has a copy
is loaded and not generated again, and a review finishes incomplete chunks only;
so a chunk is never finished twice, however often it moved in between.  What is
stored may be older than what is resident, and it too was once the copy that
counted.
-/

namespace ChunkStream

/-! ## Generators -/

theorem Chunk.isComplete_of_copy {chunk old : Chunk}
    (h : old.copy = chunk.copy) : old.isComplete = chunk.isComplete :=
  congrArg (fun copy => copy.1 == Completion.complete) h

namespace Generator

/-- What may be found under a coordinate: what the generator makes of it or, if
that is incomplete, what finishing makes of that. -/
inductive Makes (g : Generator) (c : Coord) : Completion × Option Buffer → Prop
  | generated {chunk : Chunk} (h : g.generate c = .ok chunk) :
      Makes g c chunk.copy
  | finished {chunk : Chunk} (h : g.generate c = .ok chunk)
      (hincomplete : chunk.isComplete = false)
      (hfinish : (g.finish chunk).2 = .ok .complete) :
      Makes g c (.complete, (g.finish chunk).1.content)

/-- What the generator leaves incomplete it can finish, and what comes of that
depends on tag and content alone. -/
def Steady (g : Generator) : Prop :=
  ∀ c chunk old, g.generate c = .ok chunk → chunk.isComplete = false →
    old.copy = chunk.copy → (g.finish old).2 = .ok .complete
      ∧ (g.finish old).1.content = (g.finish chunk).1.content

/-- Payloads have room for what the generator makes. -/
def Fits (g : Generator) : Prop :=
  ∀ c chunk b, g.generate c = .ok chunk → chunk.content = some b →
    (Payload.encodePlain b).length < Bytes.capacity 4

/-- The two kinds of terrain. -/
inductive IsTerrain : Generator → Prop
  | flat (f : Flat) : IsTerrain f.generator
  | heightfield (heights : Heightfield.HeightMap) (p : TerrainParams) :
      IsTerrain (Heightfield.ofHeights heights p)

example (p : TerrainParams) : (Heightfield.generator p).IsTerrain :=
  .heightfield (Heightfield.noiseHeight p) p

variable {g : Generator} {c : Coord} {chunk old : Chunk}
  {content content' : Option Buffer}

/-- Finishing an incomplete chunk once gives what may be found. -/
theorem Makes.finish (hg : g.Steady) (hold : g.Makes c old.copy)
    (hincomplete : old.isComplete = false) :
    g.Makes c (Production.finished (g.finish old)).copy := by
  generalize hcopy : old.copy = copy at hold
  cases hold with
  | @generated chunk h =>
    have hunfinished : chunk.isComplete = false := by
      rw [← Chunk.isComplete_of_copy hcopy, hincomplete]
    obtain ⟨hfinish, hcontent⟩ := hg c chunk old h hunfinished hcopy
    have hself := (hg c chunk chunk h hunfinished rfl).1
    rcases hresult : g.finish old with ⟨next, result⟩
    rw [hresult] at hfinish hcontent
    obtain rfl : result = .ok .complete := hfinish
    have hnext : (Production.finished (next, .ok .complete)).copy
        = (.complete, (g.finish chunk).1.content) :=
      congrArg (Prod.mk Completion.complete) hcontent
    rw [hnext]
    exact .finished h hunfinished hself
  | finished =>
    -- what has been finished is complete, and so it is not finished again
    have htag : old.completion = .complete := congrArg Prod.fst hcopy
    rw [Chunk.isComplete, htag] at hincomplete
    cases hincomplete

/-- A complete copy is what was made, or what finishing made of it. -/
theorem Makes.content_of_complete (h : g.Makes c (.complete, content)) :
    ∃ chunk, g.generate c = .ok chunk ∧ content
      = if chunk.isComplete then chunk.content
        else (g.finish chunk).1.content := by
  generalize hcopy : (Completion.complete, content) = copy at h
  cases h with
  | @generated chunk h =>
    have htag : chunk.completion = .complete := (congrArg Prod.fst hcopy).symm
    have hcontent : content = chunk.content := congrArg Prod.snd hcopy
    refine ⟨chunk, h, ?_⟩
    rw [Chunk.isComplete, htag]
    exact hcontent
  | @finished chunk h hincomplete _ =>
    cases hcopy
    refine ⟨chunk, h, ?_⟩
    rw [hincomplete]
    rfl

/-- There is one complete copy of a coordinate at most. -/
theorem Makes.complete_unique (h : g.Makes c (.complete, content))
    (h' : g.Makes c (.complete, content')) : content' = content := by
  obtain ⟨chunk, hchunk, rfl⟩ := h.content_of_complete
  obtain ⟨chunk', hchunk', rfl⟩ := h'.content_of_complete
  rw [hchunk] at hchunk'
  cases hchunk'
  rfl

namespace IsTerrain

/-- Terrain is made with all its blocks. -/
theorem grown (hg : g.IsTerrain) (h : g.generate c = .ok chunk) :
    ∃ edge completion b, chunk.Grown c edge completion b := by
  cases hg with
  | flat f => exact ⟨_, _, Flat.grown_of_generate (of_orFault_eq_ok h)⟩
  | heightfield heights p => exact ⟨_, _, Heightfield.grown_of_generate h⟩

theorem faithful (hg : g.IsTerrain) (hfits : g.Fits) : g.Faithful where
  generate c chunk h := by
    obtain ⟨_, completion, b, hgrown⟩ := hg.grown h
    obtain rfl := hgrown.chunk
    have hb := hgrown.storable (hfits c _ b h rfl)
    exact hgrown.coord ▸ Chunk.intact_ofBuffer hb completion
  finish c chunk h := by
    cases hg with
    | flat f => exact h
    | heightfield heights p =>
      obtain ⟨b, hb⟩ := h.unreleased
      obtain ⟨hcoord, hstorable⟩ := h.content b hb
      have hshape := Heightfield.sameShape_laySand b
      show (Heightfield.finish chunk).1.Intact c
      rw [Heightfield.fst_finish hb]
      refine ⟨⟨h.coord, ?_⟩, _, rfl⟩
      intro b' hb'
      cases hb'
      exact ⟨hshape.coord.trans hcoord, hstorable.congr hshape⟩

theorem steady (hg : g.IsTerrain) : g.Steady := by
  intro c chunk old h _ hcopy
  have hcontent : old.content = chunk.content := congrArg Prod.snd hcopy
  cases hg with
  | flat f => exact ⟨rfl, hcontent⟩
  | heightfield heights p =>
    obtain ⟨b, hgrown⟩ := Heightfield.grown_of_generate h
    have hb : chunk.content = some b := by rw [hgrown.chunk]; rfl
    have hold : old.content = some b := hcontent.trans hb
    refine ⟨Heightfield.snd_finish_of_full hold hgrown.full, ?_⟩
    show (Heightfield.finish old).1.content
      = (Heightfield.finish chunk).1.content
    rw [Heightfield.fst_finish hold, Heightfield.fst_finish hb]

end IsTerrain

end Generator

/-! ## States -/

variable {g : Generator} {setup : Setup FarStore} {c : Coord}
  {chunk : Chunk} {s t : StreamState FarStore}

/-- A copy of the coordinate is resident or stored. -/
def StreamState.HasCopy (s : StreamState FarStore) (c : Coord)
    (copy : Completion × Option Buffer) : Prop :=
  (∃ chunk, s.chunk? c = some chunk ∧ chunk.copy = copy)
    ∨ s.far.copy? c = some copy

theorem StreamState.hasCopy_of_copy? {copy : Completion × Option Buffer}
    (h : s.copy? c = some copy) : s.HasCopy c copy := by
  cases hchunk : s.chunk? c with
  | none => exact .inr ((copy?_of_absent hchunk).symm.trans h)
  | some chunk =>
    rw [copy?_of_chunk? hchunk, Option.some.injEq] at h
    exact .inl ⟨chunk, hchunk, h⟩

/-- Every copy is one that may be found under its coordinate. -/
def Genuine (g : Generator) (s : StreamState FarStore) : Prop :=
  ∀ c copy, s.HasCopy c copy → g.Makes c copy

namespace Genuine

theorem carried (hs : Genuine g s) (h : Carried s t) : Genuine g t := by
  rintro c copy (⟨chunk, hchunk, rfl⟩ | hstored)
  · -- a resident chunk is the copy that counts, and that has not changed
    apply hs
    apply StreamState.hasCopy_of_copy?
    rw [← h.copy, StreamState.copy?_of_chunk? hchunk]
  · rcases h.stored c with hsame | hcounted
    · exact hs c copy (.inr (hsame.symm.trans hstored))
    · exact hs c copy
        (StreamState.hasCopy_of_copy? (hcounted.symm.trans hstored))

theorem replaced (hs : Genuine g s) (h : Replaced c chunk s t)
    (hmade : g.Makes c chunk.copy) : Genuine g t := by
  rintro d copy (⟨chunk', hchunk, rfl⟩ | hstored)
  · rw [h.chunk] at hchunk
    by_cases hd : d = c
    · rw [if_pos hd, Option.some.injEq] at hchunk
      rw [hd, ← hchunk]
      exact hmade
    · rw [if_neg hd] at hchunk
      exact hs d _ (.inl ⟨chunk', hchunk, rfl⟩)
  · rw [h.far] at hstored
    exact hs d copy (.inr hstored)

theorem handed (hs : Genuine setup.generator s)
    (hg : setup.generator.Steady) (h : Handed setup s t) :
    Genuine setup.generator t := by
  cases h with
  | conserved h => exact hs.carried h.toCarried
  | made _ hchunk h _ => exact hs.replaced h (.generated hchunk)
  | finished hold hincomplete h _ =>
    have hmade := hs _ _ (.inl ⟨_, hold, rfl⟩)
    exact hs.replaced h (hmade.finish hg hincomplete)

end Genuine

/-! ## Runs -/

/-- Somebody outside edits a chunk. -/
def Act.isEdit : Act → Bool
  | edit .. => true
  | _ => false

theorem Genuine.run {s : Session FarStore} (hs : Stocked s.provider)
    (hgenuine : Genuine setup.generator s.provider.state)
    (htier : setup.tier = FarStore.tier)
    (hfaithful : setup.generator.Faithful) (hsteady : setup.generator.Steady)
    {acts : List Act} (hacts : ∀ a ∈ acts, a.isEdit = false) :
    Stocked (s.run setup acts).provider
      ∧ Genuine setup.generator (s.run setup acts).provider.state := by
  apply Session.run_preserve (P := fun t => Stocked t.provider
    ∧ Genuine setup.generator t.provider.state) ⟨hs, hgenuine⟩
  rintro a ha t ⟨ht, hgenuine⟩
  by_cases hwork : a = .work
  · subst hwork
    obtain ⟨hnext, hhanded⟩ := ht.step_work htier hfaithful
    exact ⟨hnext, hgenuine.handed hsteady hhanded⟩
  · have hedit : ∀ d e, a ≠ .edit d e := by
      rintro d e rfl
      cases hacts _ ha
    obtain ⟨hnext, hcarried⟩ := ht.step_passive htier hwork hedit
    exact ⟨hnext, hgenuine.carried hcarried⟩

/-- A provider with the generator, begun over an empty store, comes to the state
in a run in which nobody edits a chunk. -/
inductive Generator.Reaches (g : Generator) : StreamState FarStore → Prop
  | run {setup : Setup FarStore} {world : String} {workers : Nat}
      {p : Provider FarStore} {acts : List Act}
      (htier : setup.tier = FarStore.tier) (hgenerator : setup.generator = g)
      (hstart : Provider.start setup world workers .empty = .ok p)
      (hacts : ∀ a ∈ acts, a.isEdit = false) :
      Reaches g ((Session.ofProvider p).run setup acts).provider.state

theorem Generator.Reaches.genuine (h : g.Reaches s) (hfaithful : g.Faithful)
    (hsteady : g.Steady) : s.Sound ∧ Genuine g s := by
  cases h with
  | @run setup world workers p acts htier hgenerator hstart hacts =>
    subst hgenerator
    obtain ⟨hnote, -⟩ := Provider.start_spec hstart
    have hempty : Genuine setup.generator p.state := by
      rintro c copy (⟨chunk, hchunk, -⟩ | hstored)
      · exact absurd hnote.sameStock.near
          (StreamState.near_ne_nil_of_chunk? hchunk)
      · rw [hnote.sameStock.far] at hstored
        cases hstored
    have hstocked := Stocked.start rfl FarStore.filed_empty hstart
    obtain ⟨hend, hgenuine⟩ := Genuine.run (s := .ofProvider p) hstocked hempty
      htier hfaithful hsteady hacts
    exact ⟨hend.sound, hgenuine⟩

/-- Content does not depend on scheduling, budgets or evictions.  Two runs with
the same terrain may differ in all of these: each copy, resident or stored, is
what the terrain makes of its coordinate or that finished once; what is stored
can be read; and the two runs agree on the content of what is complete in
both. -/
theorem content_independent_of_schedule (hg : g.IsTerrain) (hfits : g.Fits)
    (hs : g.Reaches s) (ht : g.Reaches t) :
    (∀ c copy, s.HasCopy c copy → g.Makes c copy)
      ∧ (∀ c stored, Table.get? s.far.entries c = some stored →
        ∃ b, b.coord = c
          ∧ s.far.copy? c = some (stored.completion, some b))
      ∧ ∀ c content content', s.HasCopy c (.complete, content) →
        t.HasCopy c (.complete, content') → content' = content := by
  have hfaithful := hg.faithful hfits
  obtain ⟨hsound, hgenuine⟩ := hs.genuine hfaithful hg.steady
  obtain ⟨-, hgenuine'⟩ := ht.genuine hfaithful hg.steady
  refine ⟨hgenuine, ?_, fun c content content' hkeep hkeep' => ?_⟩
  · rintro c ⟨completion, payload⟩ hstored
    obtain ⟨b, hcoord, hb, hpayload⟩ := hsound.filed c _ hstored
    obtain rfl : payload = Payload.encode b := hpayload
    exact ⟨b, hcoord,
      FarStore.copy?_of_get (FarStore.get_of_entry hb hstored)⟩
  · exact (hgenuine c _ hkeep).complete_unique (hgenuine' c _ hkeep')

/-! ## Shallow water -/

/-- Level ground under one layer of water. -/
def Generator.shallows : Generator :=
  Heightfield.ofHeights (fun _ _ => .ok 0) { chunkSize := 2 }

def Setup.shallows (budget : Nat) : Setup FarStore :=
  { Setup.stored budget with generator := .shallows }

theorem start_shallows (budget : Nat) :
    Provider.start (Setup.shallows budget) "stored" 1 .empty
      = .ok (.stored budget) :=
  rfl

theorem fits_shallows : Generator.shallows.Fits := by
  intro c chunk b h hb
  have hmade : Heightfield.generate (fun _ _ => .ok 0) { chunkSize := 2 } c
      = .ok chunk := h
  obtain ⟨b', hgrown⟩ := Heightfield.grown_of_generate hmade
  rw [hgrown.chunk] at hb
  cases hb
  rw [Payload.length_encodePlain, hgrown.full.blocks, hgrown.dims]
  show 44 + 4 * (2 * 2 * 2) < Bytes.capacity 4
  decide

/-- One run makes the neighbourhood of the origin from its lowest corner on, the
other one from its highest, and is ended then.  Sand was laid at the origin in
both, in the chunk that the first run keeps and in the one that the second run
has stored. -/
theorem content_independent_of_schedule_of_shallows :
    let kept := (Session.ofProvider (.stored 100)).run (.shallows 100)
      (Act.make (Box.neighborhood .origin) 34)
    let ended := (Session.ofProvider (.stored 0)).run (.shallows 0)
      ([.request ⟨1, 0, 1⟩, .work] ++ Act.make (Box.neighborhood .origin) 40
        ++ [.dispose])
    let sandy : Buffer := ⟨.origin, .cube 2, #[.sand, .sand, .sand, .sand,
      .water, .water, .water, .water]⟩
    (kept.provider.state.chunk? .origin).map Chunk.copy
        = some (.complete, some sandy)
      ∧ ended.provider.state.isResident .origin = false
      ∧ ended.provider.state.far.copy? .origin
        = some (.complete, some sandy) := by
  intro kept ended sandy
  have hkept : (kept.provider.state.chunk? .origin).map Chunk.copy
      = some (.complete, some sandy) := by decide +kernel
  have hgone : ended.provider.state.isResident .origin = false := by
    decide +kernel
  have htag : (Table.get? ended.provider.state.far.entries .origin).map
      StoredChunk.completion = some .complete := by decide +kernel
  have hreaches : Generator.shallows.Reaches kept.provider.state :=
    .run rfl rfl (start_shallows 100) (by decide)
  have hreaches' : Generator.shallows.Reaches ended.provider.state :=
    .run rfl rfl (start_shallows 0) (by decide)
  obtain ⟨-, hread, hagree⟩ := content_independent_of_schedule
    (.heightfield _ _) fits_shallows hreaches' hreaches
  obtain ⟨chunk, hchunk, hcopy⟩ := Option.map_eq_some_iff.1 hkept
  obtain ⟨stored, hstored, hcomplete⟩ := Option.map_eq_some_iff.1 htag
  obtain ⟨b, -, hcopy'⟩ := hread .origin stored hstored
  rw [hcomplete] at hcopy'
  have hsame : some sandy = some b :=
    hagree .origin (some b) (some sandy) (.inr hcopy') (.inl ⟨chunk, hchunk,
      hcopy⟩)
  exact ⟨hkept, hgone, hsame ▸ hcopy'⟩

end ChunkStream
