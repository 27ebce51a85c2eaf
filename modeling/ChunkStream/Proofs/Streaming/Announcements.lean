import ChunkStream.Proofs.Streaming.Claims
import ChunkStream.Terrain.Heightfield
import ChunkStream.Terrain.Scripted

/-!
# What is ready has been announced

Between two sweeps chunks come and become complete, and none goes.  A chunk
that becomes complete has the readiness of its neighbours looked at again, and
being neighbours is mutual, so whatever becomes ready is announced at once.  An
announcement signals its coordinate once for as long as the coordinate stays
resident.  `Grown` is what holds between two states with no sweep between them,
and `Announcements` is the invariant that a sweep keeps as well.
-/

namespace ChunkStream

variable {σ : Type} {setup : Setup σ} {s t u : StreamState σ} {c : Coord}

/-- Finishing that fails leaves the completion tag alone. -/
def Generator.KeepsTag (g : Generator) : Prop :=
  ∀ chunk next cause, g.finish chunk = (next, .error cause) →
    next.completion = chunk.completion

theorem Generator.keepsTag_of_finishAtOnce {g : Generator}
    (h : g.finish = finishAtOnce) : g.KeepsTag := by
  intro chunk next cause hfinish
  rw [h] at hfinish
  cases hfinish

/-- Heightfield terrain changes the content of what it finishes, and nothing
else. -/
theorem Heightfield.finish_frame (chunk : Chunk) :
    (finish chunk).1
      = { chunk with content := (finish chunk).1.content } := by
  obtain ⟨coord, completion, locked, _ | b⟩ := chunk <;> rfl

theorem Heightfield.keepsTag (heights : HeightMap) (p : TerrainParams) :
    (ofHeights heights p).KeepsTag := by
  intro chunk next cause hfinish
  obtain rfl : (finish chunk).1 = next := congrArg Prod.fst hfinish
  rw [finish_frame]

theorem Script.others_of_find {s : Script} {c : Coord} {g : Generator}
    (h : s.find c = .inr g) : s.others = some g := by
  unfold find at h
  split at h
  · cases h
  · next hg =>
    cases h
    assumption
  · cases h

/-- A script makes small chunks of air, or leaves a coordinate to others. -/
theorem Script.generate_cases {s : Script} {c : Coord} {chunk : Chunk}
    (h : s.generator.generate c = .ok chunk) :
    (∃ g, s.others = some g ∧ g.generate c = .ok chunk)
      ∨ ∃ completion, chunk = .ofBuffer
        ⟨c, Dims.cube edge, Array.replicate 8 Block.air⟩ completion := by
  simp only [generator, generate] at h
  split at h
  · next g hfind => exact .inl ⟨g, others_of_find hfind, h⟩
  · cases h
  · cases h
  · have hair : Buffer.air c (Dims.cube edge)
        = .ok ⟨c, Dims.cube edge, Array.replicate 8 Block.air⟩ := rfl
    rw [hair] at h
    cases h
    exact .inr ⟨_, rfl⟩

/-- A script leaves what it finishes as it is, or leaves that to others. -/
theorem Script.finish_cases (s : Script) (chunk : Chunk) :
    (∃ g, s.others = some g ∧ s.generator.finish chunk = g.finish chunk)
      ∨ (s.generator.finish chunk).1 = chunk := by
  simp only [generator, finish]
  split
  · next g hfind => exact .inl ⟨g, others_of_find hfind, rfl⟩
  all_goals exact .inr rfl

theorem Script.keepsTag {s : Script}
    (hothers : ∀ g, s.others = some g → g.KeepsTag) : s.generator.KeepsTag := by
  intro chunk next cause hfinish
  rcases s.finish_cases chunk with ⟨g, hg, hsame⟩ | hsame
  · exact hothers g hg chunk next cause (hsame.symm.trans hfinish)
  · rw [hfinish] at hsame
    exact congrArg Chunk.completion hsame

/-- One where a coordinate is announced, and zero elsewhere. -/
def StreamState.announcedBit (s : StreamState σ) (c : Coord) : Nat :=
  if c ∈ s.announced then 1 else 0

theorem StreamState.announcedBit_le (s : StreamState σ) (c : Coord) :
    s.announcedBit c ≤ 1 := by
  unfold announcedBit
  split <;> omega

/-! ## Growth -/

/-- The second state comes after the first, and no chunk went or lost its tag in
between.  What became ready was announced, and what was announced anew is ready
and was signalled once. -/
structure Grown (s t : StreamState σ) : Prop where
  aged : WellAged s → WellAged t
  resident : ∀ c, s.isResident c = true → t.isResident c = true
  complete : ∀ c, s.isResidentComplete c = true → t.isResidentComplete c = true
  nodup : s.announced.Nodup → t.announced.Nodup
  announced : ∀ c ∈ s.announced, c ∈ t.announced
  fresh : ∀ c ∈ t.announced, c ∈ s.announced ∨ t.isReady c = true
  ready : (∀ c, s.isReady c = true → c ∈ s.announced) →
    ∀ c, t.isReady c = true → c ∈ t.announced
  signals : ∀ c, t.signals.count c + s.announcedBit c = s.signals.count c
    + t.announcedBit c
  sent : ∀ c, t.sentReady c = s.sentReady c

namespace Grown

theorem isReady (h : Grown s t) (hc : s.isReady c = true) :
    t.isReady c = true :=
  StreamState.isReady_mono h.complete hc

protected theorem trans (h : Grown s t) (h' : Grown t u) : Grown s u where
  aged hs := h'.aged (h.aged hs)
  resident c hc := h'.resident c (h.resident c hc)
  complete c hc := h'.complete c (h.complete c hc)
  nodup hs := h'.nodup (h.nodup hs)
  announced c hc := h'.announced c (h.announced c hc)
  fresh c hc := by
    rcases h'.fresh c hc with hc | hc
    · rcases h.fresh c hc with hc | hc
      · exact .inl hc
      · exact .inr (h'.isReady hc)
    · exact .inr hc
  ready hs := h'.ready (h.ready hs)
  signals c := by
    have hst := h.signals c
    have htu := h'.signals c
    omega
  sent c := (h'.sent c).trans (h.sent c)

/-- Where tags and announcements stay as they are. -/
theorem of_same (haged : WellAged s → WellAged t)
    (hresident : ∀ c, s.isResident c = true → t.isResident c = true)
    (hcomplete : ∀ c, t.isResidentComplete c = s.isResidentComplete c)
    (hannounced : t.announced = s.announced) (hsignals : t.signals = s.signals)
    (hsent : ∀ c, t.sentReady c = s.sentReady c) : Grown s t := by
  have hready (c : Coord) : t.isReady c = s.isReady c := by
    simp only [StreamState.isReady, hcomplete, funext hcomplete]
  refine ⟨haged, hresident, fun c hc => by rwa [hcomplete],
    fun hs => by rwa [hannounced], fun c hc => by rwa [hannounced],
    fun c hc => .inl (by rwa [hannounced] at hc), ?_, ?_, hsent⟩
  · intro hs c hc
    rw [hready] at hc
    rw [hannounced]
    exact hs c hc
  · intro c
    simp only [StreamState.announcedBit, hannounced, hsignals]

theorem of_sameStock (h : SameStock s t) : Grown s t :=
  of_same (fun hs => hs.of_near h.near h.nextAge)
    (fun c hc => by rwa [StreamState.isResident_congr h.near])
    (StreamState.isResidentComplete_congr h.near) h.announced h.signals fun _ =>
      h.sentReady

protected theorem refl (s : StreamState σ) : Grown s s := of_sameStock (.refl s)

/-- Holders of chunks leave tags and announcements as they are. -/
theorem of_handled (h : Handled Resident.SameTag s t) : Grown s t := by
  refine of_same (fun hs => hs.of_handled h) (fun c hc => by rwa [h.isResident])
    h.isResidentComplete ?_ ?_ ?_
  · rw [h.frame]
  · rw [h.frame]
  · intro c
    rw [h.frame]
    rfl

/-- One chunk came or became complete, and then its neighbourhood was looked at.
A coordinate that this made ready is a neighbour of the chunk, so the look finds
it. -/
theorem announceIfComplete (haged : WellAged s → WellAged u)
    (hresident : ∀ c, s.isResident c = true → u.isResident c = true)
    (hothers : ∀ n, n ≠ c → u.isResidentComplete n = s.isResidentComplete n)
    (hcomplete : s.isResidentComplete c = true → u.isResidentComplete c = true)
    (hannounced : u.announced = s.announced) (hsignals : u.signals = s.signals)
    (hsent : ∀ c, u.sentReady c = s.sentReady c) :
    Grown s (Production.announceIfComplete c u) := by
  have hmono (n : Coord) (hn : s.isResidentComplete n = true) :
      u.isResidentComplete n = true := by
    by_cases hnc : n = c
    · subst hnc
      exact hcomplete hn
    · rwa [hothers n hnc]
  unfold Production.announceIfComplete
  by_cases hc : u.isResidentComplete c = true
  · rw [if_pos hc]
    have h := Announcing.announceAround c u
    have hready (n : Coord) : (u.announceAround c).isReady n = u.isReady n :=
      StreamState.isReady_congr h.near n
    refine ⟨?_, ?_, ?_, fun hs => h.nodup (hannounced ▸ hs),
      fun n hn => (h.mem_announced n).2 (.inl (hannounced ▸ hn)),
      ?_, ?_, ?_, ?_⟩
    · intro hs
      obtain ⟨hkeys, hages, hbelow⟩ := haged hs
      rw [h.frame]
      exact ⟨hkeys, hages, hbelow⟩
    · intro n hn
      rw [StreamState.isResident_congr h.near]
      exact hresident n hn
    · intro n hn
      rw [StreamState.isResidentComplete_congr h.near]
      exact hmono n hn
    · intro n hn
      rw [h.mem_announced, hannounced] at hn
      rcases hn with hn | ⟨-, hn⟩
      · exact .inl hn
      · exact .inr ((hready n).trans hn)
    · intro hs n hn
      rw [hready] at hn
      rw [h.mem_announced]
      by_cases hnc : c ∈ (Box.neighborhood n).toList
      · refine .inr ⟨?_, hn⟩
        rw [Box.mem_toList_iff] at hnc ⊢
        exact Box.contains_neighborhood_comm.1 hnc
      · -- away from the chunk readiness is what it was
        rw [hannounced]
        refine .inl (hs n (StreamState.isReady_iff.2 ?_))
        intro m hm
        have hmc : m ≠ c := fun h => hnc (h ▸ Box.mem_toList_iff.2 hm)
        rw [← hothers m hmc]
        exact StreamState.isReady_iff.1 hn m hm
    · intro n
      have hcount := h.count_signals n
      rw [hannounced, hsignals] at hcount
      exact hcount
    · intro n
      rw [h.frame]
      exact hsent n
  · rw [if_neg hc]
    simp only [Bool.not_eq_true] at hc
    refine of_same haged hresident ?_ hannounced hsignals hsent
    intro n
    by_cases hnc : n = c
    · subst hnc
      rw [hc]
      symm
      rw [← Bool.not_eq_true]
      exact mt hcomplete (by simp [hc])
    · exact hothers n hnc

end Grown

/-! ### The worker -/

theorem StreamState.isResidentComplete_eq (s : StreamState σ) (c : Coord) :
    s.isResidentComplete c = (s.chunk? c).any Chunk.isComplete := by
  simp only [isResidentComplete, chunk?]
  cases s.resident? c <;> rfl

theorem StreamState.isResidentComplete_adjustChunk (c : Coord)
    (f : Chunk → Chunk) (s : StreamState σ) (n : Coord) :
    (s.adjustChunk c f).isResidentComplete n
      = if n = c then (s.chunk? c).any fun chunk => (f chunk).isComplete
        else s.isResidentComplete n := by
  simp only [isResidentComplete, resident?, adjustChunk, chunk?,
    Table.get?_adjust]
  by_cases hn : n = c
  · subst hn
    rw [if_pos rfl, if_pos rfl]
    cases Table.get? s.near n <;> rfl
  · rw [if_neg hn, if_neg hn]

theorem Production.isResidentComplete_settleChunk (t : Task) (chunk : Chunk)
    (s : StreamState σ) (n : Coord) :
    (settleChunk t chunk s).isResidentComplete n
      = if n = t.coord ∧ s.isResident t.coord = false then chunk.isComplete
        else s.isResidentComplete n := by
  by_cases hheld : s.isResident t.coord = true
  · simp only [settleChunk, StreamState.install, hheld, if_true]
    rw [if_neg (by simp)]
    rfl
  · have hget : (settleChunk t chunk s).isResidentComplete n
        = (Table.get? (Table.insert s.near t.coord ⟨chunk, s.nextAge⟩) n).any
          (·.chunk.isComplete) := by
      simp only [settleChunk, StreamState.install, hheld]
      rfl
    rw [hget, Table.get?_insert]
    simp only [Bool.not_eq_true] at hheld
    by_cases hn : n = t.coord
    · simp [hn, hheld]
    · simp only [hn, Ne.symm hn, false_and, if_false]
      rfl

/-- Making a chunk resident announces nothing by itself. -/
theorem Production.settleChunk_announcements (t : Task) (chunk : Chunk)
    (s : StreamState σ) :
    (settleChunk t chunk s).announced = s.announced
      ∧ (settleChunk t chunk s).signals = s.signals
      ∧ ∀ c, (settleChunk t chunk s).sentReady c = s.sentReady c := by
  unfold settleChunk StreamState.install
  split <;> exact ⟨rfl, rfl, fun c => by
    simp [StreamState.sentReady, StreamState.note, StreamState.record, unclaim]⟩

namespace Grown

theorem review (hfinish : setup.generator.KeepsTag) (c : Coord)
    (s : StreamState σ) : Grown s (Production.review setup c s).state := by
  rcases Production.review_cases setup c s with
    ⟨reviews, -, h⟩ | h | ⟨chunk, hchunk, hcomplete, -, -, u, hnote, hend⟩
  · rw [h]
    exact .refl s
  · rw [h]
    exact announceIfComplete id (fun _ => id) (fun _ _ => rfl) id rfl rfl
      fun _ => rfl
  · have hsame := of_sameStock hnote.sameStock
    have hchunk' : u.chunk? c = some chunk :=
      (StreamState.chunk?_congr hnote.sameStock.near c).trans hchunk
    have hbefore : u.isResidentComplete c = false := by
      rw [StreamState.isResidentComplete_eq, hchunk',
        Option.any_some, hcomplete]
    rcases hend with ⟨next, completion, -, h⟩
      | ⟨next, cause, failure, hfailed, h⟩
    · rw [h]
      refine hsame.trans (announceIfComplete (fun hs => hs.adjustChunk c _)
        ?_ ?_ ?_ rfl rfl fun _ => rfl)
      · intro n hn
        rwa [(SamePlaces.adjustChunk c _ u).resident]
      · intro n hn
        rw [StreamState.isResidentComplete_adjustChunk, if_neg hn]
      · intro hc
        rw [hbefore] at hc
        cases hc
    · rw [h]
      refine hsame.trans (of_same (fun hs => hs.adjustChunk c fun _ => next)
        ?_ ?_ rfl rfl fun _ => rfl)
      · intro n hn
        rwa [(SamePlaces.adjustChunk c _ u).resident]
      · intro n
        rw [StreamState.isResidentComplete_adjustChunk]
        by_cases hn : n = c
        · subst hn
          rw [if_pos rfl, hchunk', hbefore, Option.any_some, Chunk.isComplete,
            hfinish chunk next cause hfailed]
          exact hcomplete
        · rw [if_neg hn]

theorem produce (cancelled : Bool) (t : Task) (s : StreamState σ) :
    Grown s (Production.produce setup cancelled t s).state := by
  have hunclaim (u : StreamState σ) : Grown u (Production.unclaim t.coord u) :=
    of_same (fun hs => hs.of_near rfl rfl) (fun _ => id) (fun _ => rfl) rfl rfl
      fun _ => rfl
  rcases Production.produce_cases setup cancelled t s with
    ⟨u, failure, hnote, -, h⟩ | ⟨u, chunk, hnote, -, -, h⟩
  · rw [h]
    exact (of_sameStock hnote.sameStock).trans (hunclaim u)
  · obtain ⟨hannounced, hsignals, hsent⟩ :=
      Production.settleChunk_announcements t chunk u
    rw [h]
    refine (of_sameStock hnote.sameStock).trans
      (announceIfComplete ?_ ?_ ?_ ?_ hannounced hsignals hsent)
    · intro hs
      exact (hs.install t.coord chunk).of_near rfl rfl
    · intro n hn
      exact (Production.isResident_settleChunk t chunk u n).2 (.inl hn)
    · intro n hn
      rw [Production.isResidentComplete_settleChunk, if_neg (by simp [hn])]
    · intro hc
      rw [Production.isResidentComplete_settleChunk, if_neg]
      · exact hc
      · simp [StreamState.isResident_of_complete hc]

theorem work (hfinish : setup.generator.KeepsTag) {p q : Provider σ}
    (h : p.work? setup = some q) : Grown p.state q.state := by
  obtain ⟨t, queue, u, completed, failed, -, hnote, rfl⟩ :=
    Provider.work?_spec h
  have hrun : Grown
      p.state (Production.run setup p.pipeline.cancelled t p.state).state := by
    cases hreview : t.isReview with
    | true =>
      obtain ⟨c, rfl⟩ := Task.exists_review hreview
      exact review hfinish c p.state
    | false =>
      rw [Production.run_production _ hreview]
      exact produce _ t p.state
  exact hrun.trans (of_sameStock hnote.sameStock)

theorem advance (hfinish : setup.generator.KeepsTag) {p q : Provider σ}
    (hp : Claims p)
    (h : Provider.Advance setup p q) : Grown p.state q.state := by
  cases h with
  | beside h => exact of_sameStock h
  | request c =>
    rcases Provider.requestChunk_cases setup hp.closed c
      with ⟨-, h⟩ | ⟨-, -, -, h⟩
    · rw [h]
      exact .refl _
    · rw [h]
      exact of_same (fun hs => hs.of_near rfl rfl) (fun _ => id)
        (fun _ => rfl) rfl rfl
        fun _ => rfl
  | work h => exact work hfinish h

theorem advances (hfinish : setup.generator.KeepsTag) {p q : Provider σ}
    (hp : Claims p) (h : Provider.Advances setup p q) : Grown p.state q.state :=
  hp.preserve h (P := fun q => Grown p.state q.state)
    (fun _ _ hq hstep hgrown => hgrown.trans (advance hfinish hq hstep))
    (.refl _)

end Grown

/-! ## The invariant -/

/-- With `w c` marks of `c` waiting, beside the marks at most one signal of `c`
waits, and only for a coordinate that is announced and ready.  All that is ready
is announced, and what is announced is resident. -/
structure Announcements (w : Coord → Nat) (s : StreamState σ) : Prop where
  aged : WellAged s
  nodup : s.announced.Nodup
  resident : ∀ c ∈ s.announced, s.isResident c = true
  ready : ∀ c, s.isReady c = true → c ∈ s.announced
  marks : ∀ c, w c ≤ s.signals.count c
  once : ∀ c, s.signals.count c ≤ w c + 1
  pending : ∀ c, s.signals.count c = w c + 1 → c ∈ s.announced
    ∧ s.isReady c = true

namespace Announcements

variable {w : Coord → Nat}

/-- Where no signal waits, all is said by what is announced. -/
theorem of_signals_eq_nil (hsignals : s.signals = []) (haged : WellAged s)
    (hnodup : s.announced.Nodup)
    (hresident : ∀ c ∈ s.announced, s.isResident c = true)
    (hready : ∀ c, s.isReady c = true → c ∈ s.announced) :
    Announcements (fun _ => 0) s := by
  refine ⟨haged, hnodup, hresident, hready, fun _ => Nat.zero_le _, ?_, ?_⟩
  · intro c
    rw [hsignals]
    exact Nat.zero_le _
  · intro c hc
    rw [hsignals, List.count_nil] at hc
    cases hc

theorem start (far : σ) : Announcements (fun _ => 0)
    (StreamState.start far) := by
  apply of_signals_eq_nil rfl (.of_near_eq_nil rfl) List.nodup_nil
  · intro c hc
    cases hc
  · intro c hc
    have hresident := StreamState.isResident_of_isReady hc
    cases hresident

theorem grown (hs : Announcements w s) (h : Grown s t) : Announcements w t := by
  have hcount (c : Coord) := h.signals c
  have hbit (c : Coord) : s.announcedBit c ≤ t.announcedBit c := by
    unfold StreamState.announcedBit
    by_cases hc : c ∈ s.announced
    · rw [if_pos hc, if_pos (h.announced c hc)]
    · rw [if_neg hc]
      exact Nat.zero_le _
  -- a signal that waits already belongs to a coordinate announced already
  have hfull {c : Coord} (hc : s.signals.count c = w c + 1) :
      t.announcedBit c = s.announcedBit c := by
    have hmem := (hs.pending c hc).1
    rw [StreamState.announcedBit, StreamState.announcedBit, if_pos hmem,
      if_pos (h.announced c hmem)]
  refine ⟨h.aged hs.aged, h.nodup hs.nodup, ?_, h.ready hs.ready, ?_, ?_, ?_⟩
  · intro c hc
    rcases h.fresh c hc with hc | hc
    · exact h.resident c (hs.resident c hc)
    · exact StreamState.isResident_of_isReady hc
  · intro c
    have := hs.marks c
    have := hcount c
    have := hbit c
    omega
  · intro c
    have := hs.once c
    have := hcount c
    have := t.announcedBit_le c
    by_cases hc : s.signals.count c = w c + 1
    · have := hfull hc
      omega
    · omega
  · intro c hc
    by_cases hold : s.signals.count c = w c + 1
    · obtain ⟨hmem, hready⟩ := hs.pending c hold
      exact ⟨h.announced c hmem, h.isReady hready⟩
    · have hnew : t.announcedBit c = 1 ∧ s.announcedBit c = 0 := by
        have := hcount c
        have := hs.once c
        have := t.announcedBit_le c
        omega
      have hmem : c ∈ t.announced := by
        by_contra hc
        simp [StreamState.announcedBit, hc] at hnew
      refine ⟨hmem, ?_⟩
      rcases h.fresh c hmem with hc | hc
      · simp [StreamState.announcedBit, hc] at hnew
      · exact hc

theorem signal (hs : Announcements w s) (c : Coord) :
    Announcements (fun x => w x + if x = c then 1 else 0) (s.signal c) := by
  have hcount (x : Coord) : (s.signal c).signals.count x
      = s.signals.count x + if x = c then 1 else 0 := by
    simp only [StreamState.signal, List.count_append, List.count_cons,
      List.count_nil]
    by_cases hx : x = c
    · simp [hx]
    · simp [hx, Ne.symm hx]
  refine ⟨⟨hs.aged.keys, hs.aged.ages, hs.aged.below⟩, hs.nodup,
    hs.resident, hs.ready, ?_, ?_, ?_⟩
  · intro x
    have := hs.marks x
    rw [hcount]
    omega
  · intro x
    have := hs.once x
    rw [hcount]
    omega
  · intro x hx
    rw [hcount] at hx
    exact hs.pending x (by omega)

/-- Publishing answers all marks. -/
theorem drainSignals (hs : Announcements w s) :
    Announcements (fun _ => 0) (Provider.drainSignals s) := by
  have h := Published.drainSignals s
  apply of_signals_eq_nil h.signals (hs.aged.of_near h.near h.nextAge)
  · rw [h.announced]
    exact hs.nodup
  · intro c hc
    rw [h.announced] at hc
    rw [StreamState.isResident_congr h.near]
    exact hs.resident c hc
  · intro c hc
    rw [StreamState.isReady_congr h.near] at hc
    rw [h.announced]
    exact hs.ready c hc

/-- A sweep between updates, when no signal waits. -/
theorem swept {gone : List Coord} (hs : Announcements (fun _ => 0) s)
    (hsignals : s.signals = [])
    (h : Swept setup gone s t) : Announcements (fun _ => 0) t := by
  have hnear : t.near.Sublist s.near := by
    rw [h.near]
    exact List.filter_sublist
  apply of_signals_eq_nil (h.signals.trans hsignals)
    (hs.aged.of_sublist hnear h.nextAge)
  · rw [h.announced]
    exact hs.nodup.diff
  · intro c hc
    rw [h.mem_announced hs.nodup] at hc
    exact h.isResident.2 ⟨hs.resident c hc.1, hc.2⟩
  · intro c hc
    have hstay := h.isResident.1 (StreamState.isResident_of_isReady hc)
    rw [h.mem_announced hs.nodup]
    exact ⟨hs.ready c (h.isReady.1 hc).1, hstay.2⟩

theorem compact (hs : Announcements (fun _ => 0) s)
    (hsignals : s.signals = []) :
    Announcements (fun _ => 0) (Provider.compact setup s) :=
  (hs.swept hsignals (Eviction.sweep_spec setup s).1).grown
    (Grown.of_sameStock (sameStock_compact setup s))

end Announcements

end ChunkStream
