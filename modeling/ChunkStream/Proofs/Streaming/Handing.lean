import ChunkStream.Proofs.Streaming.Copies
import ChunkStream.Terrain.Scripted

/-!
# Tasks and copies

A task that loads brings the copy of the far tier back, and one that generates
makes the first copy of its coordinate.  A review leaves the resident chunk as
it is or finishes it.  Every other copy stays as it was.
-/

namespace ChunkStream

/-- What the generator makes is intact and in its place, and so is what
finishing leaves behind. -/
structure Generator.Faithful (g : Generator) : Prop where
  generate : ∀ c chunk, g.generate c = .ok chunk → chunk.Intact c
  finish : ∀ c chunk, chunk.Intact c → (g.finish chunk).1.Intact c

theorem Script.storable_air (c : Coord) : Buffer.Storable
    ⟨c, Dims.cube edge, Array.replicate 8 Block.air⟩ := by
  have hedge : edge < Size.limit := by decide
  refine ⟨hedge, hedge, hedge, ?_⟩
  rw [Payload.length_encodePlain]
  show 44 + 4 * 8 < Bytes.capacity 4
  decide

/-- A script is as good as the generator it leaves the other coordinates to. -/
theorem Script.faithful {s : Script}
    (hothers : ∀ g, s.others = some g → g.Faithful) :
    s.generator.Faithful where
  generate c chunk h := by
    rcases generate_cases h with ⟨g, hg, h⟩ | ⟨completion, rfl⟩
    · exact (hothers g hg).generate c chunk h
    · exact Chunk.intact_ofBuffer (storable_air c) completion
  finish c chunk h := by
    rcases s.finish_cases chunk with ⟨g, hg, hsame⟩ | hsame
    · rw [hsame]
      exact (hothers g hg).finish c chunk h
    · rwa [hsame]

theorem Generator.Faithful.finished {g : Generator} (hg : g.Faithful)
    {c : Coord} {chunk : Chunk} (h : chunk.Intact c) :
    (Production.finished (g.finish chunk)).Intact c :=
  (hg.finish c chunk h).congr (Production.coord_finished _)
    (Production.content_finished _)

/-- Nobody outside releases the content of a chunk. -/
def Act.keepsContent : Act → Bool
  | .edit _ .release => false
  | _ => true

theorem Edit.intact_apply {c : Coord} {e : Edit} {chunk next : Chunk}
    (hchunk : chunk.Intact c) (he : e ≠ .release)
    (h : e.apply chunk = .ok (some next)) : next.Intact c := by
  cases e with
  | completion tag =>
    cases h
    exact hchunk.congr rfl rfl
  | block cell block =>
    obtain ⟨b, hb⟩ := hchunk.unreleased
    obtain ⟨hcoord, hstorable⟩ := hchunk.content b hb
    cases hset : b.set cell block with
    | error cause => simp [apply, Chunk.set, hb, hset, bind, Except.bind] at h
    | ok b' =>
      simp only [apply, Chunk.set, hb, hset, bind, Except.bind, pure,
        Except.pure, Except.ok.injEq, Option.some.injEq] at h
      subst h
      refine ⟨⟨hchunk.coord, ?_⟩, b', rfl⟩
      intro b'' hb''
      cases hb''
      have hshape := Buffer.sameShape_set hset
      exact ⟨hshape.coord.trans hcoord, hstorable.congr hshape⟩
  | release => exact absurd rfl he

/-! ## A step of the worker -/

section Worker

variable {σ : Type} {setup : Setup σ} {s t u : StreamState σ} {c : Coord}
  {chunk : Chunk}

/-- The chunk is resident at a coordinate now, and nothing else was moved. -/
structure Replaced (c : Coord) (chunk : Chunk) (s t : StreamState σ) :
    Prop where
  chunk : ∀ d, t.chunk? d = if d = c then some chunk else s.chunk? d
  far : t.far = s.far

theorem Replaced.annotated (h : Replaced c chunk s t) (hnote : Annotated t u) :
    Replaced c chunk s u where
  chunk d := by
    rw [StreamState.chunk?_congr hnote.sameStock.near, h.chunk]
  far := hnote.sameStock.far.trans h.far

theorem Annotated.generated (h : Annotated s t) (c : Coord) :
    t.generated c = s.generated c :=
  h.journal.count_eq rfl

namespace Production

/-- A review leaves the near cache alone or finishes its chunk, which was
incomplete. -/
theorem review_copies (setup : Setup σ) (c : Coord) (s : StreamState σ) :
    (review setup c s).state.near = s.near
      ∨ ∃ old, s.chunk? c = some old ∧ old.isComplete = false
        ∧ Replaced c (finished (setup.generator.finish old)) s
          (review setup c s).state := by
  cases hfinishable : s.isFinishable c with
  | false => exact .inl (review_of_not_finishable setup hfinishable).1
  | true =>
    obtain ⟨old, hold, hincomplete, hreview⟩ :=
      review_of_finishable setup hfinishable
    refine .inr ⟨old, hold, hincomplete, ?_, (SamePlaces.review setup c s).far⟩
    intro d
    rw [hreview, StreamState.chunk?_congr (near_finishChunk setup c old s),
      StreamState.chunk?_adjustChunk, hold]
    rfl

/-- A production that got a chunk makes it resident, and any other leaves the
near cache alone. -/
theorem produce_copies (setup : Setup σ) (cancelled : Bool) (t : Task)
    {s : StreamState σ} (hfree : s.isResident t.coord = false) :
    ((cancelled = true ∨ ∀ chunk, ¬ Acquires setup s.far t chunk)
        ∧ (produce setup cancelled t s).state.near = s.near
        ∧ ∀ d, (produce setup cancelled t s).state.generated d = s.generated d)
      ∨ ∃ chunk, Acquires setup s.far t chunk
        ∧ Replaced t.coord chunk s (produce setup cancelled t s).state
        ∧ ∀ d, (produce setup cancelled t s).state.generated d
          = s.generated d + if t = .generate d then 1 else 0 := by
  rcases produce_cases setup cancelled t s with
    ⟨u, failure, hnote, hnothing, h⟩ | ⟨u, chunk, hnote, -, hacquires, h⟩
  · rw [h]
    exact .inl ⟨hnothing, hnote.sameStock.near, hnote.generated⟩
  · have hfree' : u.isResident t.coord = false := by
      rw [StreamState.isResident_congr hnote.sameStock.near, hfree]
    have hannounce := SamePlaces.announceIfComplete t.coord
      (settleChunk t chunk u)
    obtain ⟨-, -, hfar, hjournal⟩ := settleChunk_frame t chunk u
    refine .inr ⟨chunk, hacquires, ⟨?_, ?_⟩, ?_⟩
    · intro d
      have hnear : (settleChunk t chunk u).near
          = Table.insert u.near t.coord ⟨chunk, u.nextAge⟩ := by
        simp only [settleChunk, StreamState.install, hfree']
        rfl
      have hu : u.chunk? d = s.chunk? d :=
        StreamState.chunk?_congr hnote.sameStock.near d
      rw [h, StreamState.chunk?_congr (near_announceIfComplete _ _), ← hu,
        StreamState.chunk?, StreamState.resident?, hnear, Table.get?_insert]
      by_cases hd : t.coord = d
      · simp [hd]
      · simp [hd, Ne.symm hd, StreamState.chunk?, StreamState.resident?]
    · rw [h]
      exact hannounce.far.trans (hfar.trans hnote.sameStock.far)
    · intro d
      calc (produce setup cancelled t s).state.generated d
          = (settleChunk t chunk u).generated d := by
            rw [h]
            exact hannounce.journal.count_eq rfl
        _ = u.generated d + if t = .generate d then 1 else 0 := by
            rw [StreamState.generated, hjournal hfree', List.count_cons]
            simp [StreamState.generated]
        _ = s.generated d + if t = .generate d then 1 else 0 := by
            rw [hnote.generated]

end Production

end Worker

variable {setup : Setup FarStore} {p q : Provider FarStore}
  {s t u : StreamState FarStore} {c : Coord} {chunk : Chunk}

namespace Replaced

theorem copy_self (h : Replaced c chunk s t) : t.copy? c = some chunk.copy :=
  StreamState.copy?_of_chunk? (by rw [h.chunk, if_pos rfl])

theorem copy_of_ne (h : Replaced c chunk s t) {d : Coord} (hd : d ≠ c) :
    t.copy? d = s.copy? d :=
  StreamState.copy?_congr (by rw [h.chunk, if_neg hd]) h.far

theorem sound (h : Replaced c chunk s t) (hs : s.Sound)
    (hchunk : chunk.Intact c) (hopen : s.far.closed = false) : t.Sound where
  intact d chunk' hd := by
    rw [h.chunk] at hd
    by_cases hdc : d = c
    · rw [if_pos hdc, Option.some.injEq] at hd
      rw [hdc, ← hd]
      exact hchunk
    · rw [if_neg hdc] at hd
      exact hs.intact d chunk' hd
  filed := by
    rw [h.far]
    exact hs.filed
  opened _ := by rw [h.far, hopen]

end Replaced

/-- What one task does to the copies: it leaves all of them as they are, it
makes the first one of its coordinate, or it finishes the chunk that is resident
there. -/
inductive Handed (setup : Setup FarStore) (s t : StreamState FarStore) : Prop
  | conserved (h : Conserved s t) : Handed setup s t
  | made {c : Coord} {chunk : Chunk} (hnone : s.copy? c = none)
      (hchunk : setup.generator.generate c = .ok chunk)
      (h : Replaced c chunk s t)
      (hgenerated : ∀ d, t.generated d
        = s.generated d + if c = d then 1 else 0) : Handed setup s t
  | finished {c : Coord} {old : Chunk} (hold : s.chunk? c = some old)
      (hincomplete : old.isComplete = false)
      (h : Replaced c (Production.finished (setup.generator.finish old)) s t)
      (hgenerated : ∀ d, t.generated d = s.generated d) : Handed setup s t

namespace Handed

theorem annotated (h : Handed setup s t) (hnote : Annotated t u) :
    Handed setup s u := by
  have hgenerated := hnote.generated
  cases h with
  | conserved h =>
    exact .conserved (h.trans (.of_sameStock h.sound hnote.sameStock))
  | made hnone hchunk h hmade =>
    exact .made hnone hchunk (h.annotated hnote)
      fun d => (hgenerated d).trans (hmade d)
  | finished hold hincomplete h hsame =>
    exact .finished hold hincomplete (h.annotated hnote)
      fun d => (hgenerated d).trans (hsame d)

theorem review (hs : s.Sound) (c : Coord) :
    Handed setup s (Production.review setup c s).state := by
  have hplaces := SamePlaces.review setup c s
  have hgenerated (d : Coord) :
      (Production.review setup c s).state.generated d = s.generated d :=
    hplaces.journal.count_eq rfl
  rcases Production.review_copies setup c s with
    hnear | ⟨old, hold, hincomplete, h⟩
  · exact .conserved (.of_same hs hnear hplaces.far hgenerated)
  · exact .finished hold hincomplete h hgenerated

/-- Loading brings the stored copy back. -/
theorem load (htier : setup.tier = FarStore.tier) (cancelled : Bool)
    (hs : s.Sound) (hopen : s.far.closed = false)
    (hfree : s.isResident c = false) (hcopy : (s.copy? c).isSome = true) :
    Handed setup s (Production.produce setup cancelled (.load c) s).state := by
  have hfar : (Production.produce setup cancelled (.load c) s).state.far
      = s.far := (Production.run_frame setup cancelled (.load c) s).2
  rcases Production.produce_copies setup cancelled (.load c) hfree with
    ⟨-, hnear, hgenerated⟩ | ⟨chunk, hget, h, hgenerated⟩
  · exact .conserved (.of_same hs hnear hfar hgenerated)
  · replace h : Replaced c chunk s _ := h
    replace hget : s.far.get c = .ok (some chunk) := by
      rw [Production.Acquires, htier] at hget
      exact hget
    have hstored : s.far.contains c = true := by
      have hheld := (hs.isSome_copy? c).1 hcopy
      rwa [hfree, or_iff_right (by simp)] at hheld
    have hintact : chunk.Intact c := by
      obtain ⟨b, completion, hget', rfl, hstorable⟩ :=
        FarStore.get_of_filed hs.filed hstored
      rw [hget] at hget'
      cases hget'
      exact Chunk.intact_ofBuffer hstorable completion
    have habsent : s.chunk? c = none := by
      rw [StreamState.isResident_eq] at hfree
      simpa using hfree
    refine .conserved ⟨⟨?_, fun d => .inl (by rw [hfar])⟩,
      h.sound hs hintact hopen, by rw [hfar], ?_⟩
    · intro d
      by_cases hd : d = c
      · rw [hd, h.copy_self, StreamState.copy?_of_absent habsent,
          FarStore.copy?_of_get hget]
      · exact h.copy_of_ne hd
    · intro d
      simpa using hgenerated d

theorem generate (cancelled : Bool) (hs : s.Sound)
    (hfree : s.isResident c = false) (hnone : s.copy? c = none) :
    Handed setup s
      (Production.produce setup cancelled (.generate c) s).state := by
  have hfar : (Production.produce setup cancelled (.generate c) s).state.far
      = s.far := (Production.run_frame setup cancelled (.generate c) s).2
  rcases Production.produce_copies setup cancelled (.generate c) hfree with
    ⟨-, hnear, hgenerated⟩ | ⟨chunk, hchunk, h, hgenerated⟩
  · exact .conserved (.of_same hs hnear hfar hgenerated)
  · exact .made hnone hchunk h fun d => by simpa using hgenerated d

end Handed

end ChunkStream
