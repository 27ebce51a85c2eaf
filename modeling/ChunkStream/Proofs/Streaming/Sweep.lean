import ChunkStream.Proofs.Streaming.Worker
import Mathlib.Data.List.Basic
import Mathlib.Data.List.Nodup
import Mathlib.Logic.Relation

/-!
# What a sweep takes away

A sweep takes coordinates out of the near cache and out of the announced ones,
and the chunks go to the far tier.  Nothing that a region retains is taken, so
neither a footprint nor the neighbours of a footprint ever lose a chunk.
-/

namespace ChunkStream

variable {σ : Type} {setup : Setup σ} {s t u : StreamState σ}
  {gone : List Coord} {c : Coord}

/-- The far tier went from one state to another by taking unlocked chunks. -/
abbrev Stored (setup : Setup σ) : σ → σ → Prop :=
  Relation.ReflTransGen fun far next =>
    ∃ chunk : Chunk, chunk.locked = false ∧ setup.tier.put chunk far = .ok next

/-- The second state is the first without some of its resident coordinates. -/
structure Swept (setup : Setup σ) (gone : List Coord)
    (s t : StreamState σ) : Prop where
  near : t.near = s.near.filter fun e => e.1 ∉ gone
  announced : t.announced = s.announced.diff gone
  held : ∀ c ∈ gone, s.isResident c = true
  preparing : t.preparing = s.preparing
  signals : t.signals = s.signals
  regions : t.regions = s.regions
  nextAge : t.nextAge = s.nextAge
  far : Stored setup s.far t.far
  journal : Asides s.journal t.journal

theorem Table.get?_filter_keys {κ α : Type} [DecidableEq κ] (t : Table κ α)
    (p : κ → Bool) (k : κ) : get? (t.filter fun e => p e.1) k
        = if p k then get? t k else none := by
  induction t with
  | nil => simp [get?]
  | cons e rest ih =>
    obtain ⟨k', v⟩ := e
    by_cases hk : k' = k
    · subst hk
      cases hp : p k' with
      | true => simp [get?, hp]
      | false => simpa [get?, hp] using ih
    · cases hp : p k' with
      | true => simpa [get?, hp, hk] using ih
      | false => simpa [get?, hp, hk] using ih

namespace Swept

theorem of_annotated (h : Annotated s t) : Swept setup [] s t := by
  rw [h.frame]
  exact ⟨by simp, by simp, by simp, rfl, rfl, rfl, rfl, .refl, h.journal⟩

theorem resident? (h : Swept setup gone s t) (c : Coord) :
    t.resident? c = if c ∈ gone then none else s.resident? c := by
  have hget := Table.get?_filter_keys s.near (fun k => decide (k ∉ gone)) c
  unfold StreamState.resident?
  rw [h.near, hget]
  by_cases hc : c ∈ gone <;> simp [hc]

theorem chunk? (h : Swept setup gone s t) (c : Coord) :
    t.chunk? c = if c ∈ gone then none else s.chunk? c := by
  rw [StreamState.chunk?, h.resident?, apply_ite (Option.map _)]
  rfl

theorem isResident (h : Swept setup gone s t) :
    t.isResident c = true ↔ s.isResident c = true ∧ c ∉ gone := by
  unfold StreamState.isResident
  rw [h.resident?]
  by_cases hc : c ∈ gone <;> simp [hc]

theorem isResidentComplete (h : Swept setup gone s t) :
    t.isResidentComplete c = true ↔ s.isResidentComplete c = true
        ∧ c ∉ gone := by
  unfold StreamState.isResidentComplete
  rw [h.resident?]
  by_cases hc : c ∈ gone <;> simp [hc]

/-- Readiness is lost where a neighbour goes. -/
theorem isReady (h : Swept setup gone s t) :
    t.isReady c = true ↔
      s.isReady c = true ∧ ∀ n, (Box.neighborhood c).contains n = true →
          n ∉ gone := by
  simp only [StreamState.isReady_iff, h.isResidentComplete]
  exact ⟨fun hall => ⟨fun n hn => (hall n hn).1, fun n hn => (hall n hn).2⟩,
    fun hall n hn => ⟨hall.1 n hn, hall.2 n hn⟩⟩

theorem mem_announced (h : Swept setup gone s t) (hnodup : s.announced.Nodup) :
    c ∈ t.announced ↔ c ∈ s.announced ∧ c ∉ gone := by
  rw [h.announced]
  exact hnodup.mem_sdiff_iff

theorem trans {gone' : List Coord} (h : Swept setup gone s t)
    (h' : Swept setup gone' t u) : Swept setup (gone ++ gone') s u := by
  refine ⟨?_, ?_, ?_, h'.preparing.trans h.preparing,
    h'.signals.trans h.signals,
    h'.regions.trans h.regions, h'.nextAge.trans h.nextAge, h.far.trans h'.far,
    h.journal.trans h'.journal⟩
  · rw [h'.near, h.near, List.filter_filter]
    apply List.filter_congr
    intro e _
    simp [Bool.and_comm]
  · rw [h'.announced, h.announced, List.diff_append]
  · intro c hc
    rcases List.mem_append.1 hc with hc | hc
    · exact h.held c hc
    · exact (h.isResident.1 (h'.held c hc)).1

end Swept

namespace Eviction

/-- What an eviction can do.  It leaves an entry in the journal at most, when no
chunk is there, somebody holds it or the far tier refuses it; or the far tier
has taken the chunk, and it departs. -/
theorem evict_spec (setup : Setup σ) (c : Coord) (s : StreamState σ) :
    (∃ t, Annotated s t ∧ evict setup c s = (false, t)
        ∧ ∀ r, s.resident? c = some r → r.chunk.locked = true
          ∨ (setup.tier.put r.chunk s.far).isOk = false)
      ∨ ∃ r t, s.resident? c = some r ∧ r.chunk.locked = false
        ∧ setup.tier.put r.chunk s.far = .ok t.far
        ∧ Asides s.journal t.journal
        ∧ t = { s with
          near := Table.erase s.near c
          departed := { r with chunk := r.chunk.release } :: s.departed
          announced := s.announced.erase c
          far := t.far
          journal := t.journal }
        ∧ evict setup c s = (true, t) := by
  unfold evict StreamState.chunk?
  cases hr : s.resident? c with
  | none =>
    refine .inl ⟨s, .refl s, rfl, ?_⟩
    intro r hnone
    cases hnone
  | some r =>
    simp only [Option.map_some]
    cases hlocked : r.chunk.locked with
    | true =>
      refine .inl ⟨_, .record rfl s, rfl, ?_⟩
      intro r' hr'
      cases hr'
      exact .inl hlocked
    | false =>
      have hfar : (s.record (.called (.put r.chunk.coord))).far = s.far := rfl
      simp only [Bool.false_eq_true, if_false, hfar]
      cases hput : setup.tier.put r.chunk s.far with
      | error cause =>
        refine .inl ⟨_, ⟨rfl, (Asides.cons rfl _).trans (.cons rfl _)⟩, rfl, ?_⟩
        intro r' hr'
        cases hr'
        rw [hput]
        exact .inr rfl
      | ok far =>
        have hr' : Table.get? s.near c = some r := hr
        refine .inr ⟨r, _, rfl, hlocked, ?_, ?_, ?_, rfl⟩
        all_goals simp only [StreamState.dismiss, StreamState.resident?,
          StreamState.record, hr', hput]
        exact (Asides.cons rfl _).trans (.cons rfl _)

/-- An eviction only leaves an entry in the journal, or it takes the coordinate
away, when the far tier has taken the chunk. -/
theorem evict_cases (setup : Setup σ) (c : Coord) (s : StreamState σ) :
    (∃ t, Annotated s t ∧ evict setup c s = (false, t))
      ∨ ∃ t chunk, s.chunk? c = some chunk
        ∧ setup.tier.put chunk s.far = .ok t.far
        ∧ Swept setup [c] s t ∧ evict setup c s = (true, t) := by
  rcases evict_spec setup c s with
    ⟨t, hnote, hevict, -⟩ | ⟨r, t, hr, hlocked, hput, hjournal, ht, hevict⟩
  · exact .inl ⟨t, hnote, hevict⟩
  · refine .inr ⟨t, r.chunk, StreamState.chunk?_of_resident? hr, hput, ?_,
      hevict⟩
    have hfar : Stored setup s.far t.far := .single ⟨r.chunk, hlocked, hput⟩
    have hheld : ∀ d ∈ [c], s.isResident d = true := by
      simp [StreamState.isResident, hr]
    rw [ht]
    exact ⟨by simp [Table.erase], by simp, hheld, rfl, rfl, rfl, rfl, hfar,
      hjournal⟩

theorem evictUpTo_spec (setup : Setup σ) (n : Nat) (cs : List Coord)
    (s : StreamState σ) :
    Swept setup (evictUpTo setup n cs s).1 s (evictUpTo setup n cs s).2
      ∧ ∀ c ∈ (evictUpTo setup n cs s).1, c ∈ cs := by
  induction cs generalizing n s with
  | nil =>
    cases n <;> exact ⟨.of_annotated (.refl s),
      fun c hc => absurd hc List.not_mem_nil⟩
  | cons c cs ih =>
    cases n with
    | zero => exact ⟨.of_annotated (.refl s),
        fun c hc => absurd hc List.not_mem_nil⟩
    | succ n =>
      rcases evict_cases setup c s with
        ⟨t, hnote, hevict⟩ | ⟨t, chunk, -, -, hswept, hevict⟩
      · obtain ⟨hrest, hmem⟩ := ih (n + 1) t
        simp only [evictUpTo, hevict]
        exact ⟨(Swept.of_annotated hnote).trans hrest,
          fun d hd => List.mem_cons_of_mem c (hmem d hd)⟩
      · obtain ⟨hrest, hmem⟩ := ih n t
        simp only [evictUpTo, hevict]
        refine ⟨hswept.trans hrest, ?_⟩
        intro d hd
        rcases List.mem_cons.1 hd with rfl | hd
        · exact List.mem_cons_self
        · exact List.mem_cons_of_mem c (hmem d hd)

theorem not_isRetained_of_mem_candidates (h : c ∈ candidates s) :
    s.isRetained c = false := by
  unfold candidates at h
  obtain ⟨e, he, rfl⟩ := List.mem_map.1 h
  have hfilter := (List.mergeSort_perm _ _).mem_iff.1 he
  simpa using (List.mem_filter.1 hfilter).2

/-- A sweep takes away only what no region retains. -/
theorem sweep_spec (setup : Setup σ) (s : StreamState σ) :
    Swept setup (sweep setup s).1 s (sweep setup s).2
      ∧ ∀ c ∈ (sweep setup s).1, s.isRetained c = false := by
  unfold sweep
  simp only
  split
  · exact ⟨.of_annotated (.refl s), fun c hc => absurd hc List.not_mem_nil⟩
  · obtain ⟨hswept, hmem⟩ := evictUpTo_spec setup (s.near.length - setup.budget)
      (candidates s) (s.note (.compacting s.near.length setup.budget))
    exact ⟨(Swept.of_annotated (.record rfl s)).trans hswept,
      fun c hc => not_isRetained_of_mem_candidates (hmem c hc)⟩

/-- What single evictions preserve, and the remark before the first of them, a
sweep preserves. -/
theorem sweep_preserve {P : StreamState σ → Prop}
    (hnote : ∀ s m n, P s → P (s.note (.compacting m n)))
    (hevict : ∀ s c, P s → P (evict setup c s).2) (hs : P s) :
    P (sweep setup s).2 := by
  have hchunks (n : Nat) (cs : List Coord) (s : StreamState σ) (hs : P s) :
      P (evictUpTo setup n cs s).2 := by
    induction cs generalizing n s with
    | nil => cases n <;> exact hs
    | cons c cs ih =>
      cases n with
      | zero => exact hs
      | succ n =>
        have hnext := hevict s c hs
        unfold evictUpTo
        cases h : evict setup c s with
        | mk gone t =>
          rw [h] at hnext
          cases gone with
          | true => exact ih n t hnext
          | false => exact ih (n + 1) t hnext
  unfold sweep
  simp only
  split
  · exact hs
  · exact hchunks _ _ _ (hnote s _ _ hs)

/-- A sweep of nothing does nothing. -/
theorem sweep_of_near_eq_nil (setup : Setup σ) (hnear : s.near = []) :
    sweep setup s = ([], s) := by
  unfold sweep
  rw [hnear]
  exact if_pos (Nat.zero_le _)

/-- The sweep of a near cache that is in order of age. -/
def sweepInOrder (setup : Setup σ) (s : StreamState σ) :
    List Coord × StreamState σ :=
  if s.near.length ≤ setup.budget then ([], s)
  else
    evictUpTo setup (s.near.length - setup.budget)
      ((s.near.filter fun e => !s.isRetained e.1).map (·.1))
      (s.note (.compacting s.near.length setup.budget))

theorem sweep_eq_sweepInOrder (setup : Setup σ)
    (h : s.near.Pairwise fun a b => a.2.age ≤ b.2.age) :
    sweep setup s = sweepInOrder setup s := by
  have hsorted : candidates s
      = (s.near.filter fun e => !s.isRetained e.1).map (·.1) := by
    rw [candidates, List.mergeSort_of_pairwise]
    exact (h.filter _).imp fun hle => decide_eq_true hle
  rw [sweep, hsorted]
  rfl

end Eviction

/-- What a sweep takes is outside every footprint, and so are its
neighbours. -/
theorem StreamState.isRetained_of_neighbor {id : ObserverId}
    {i : Interest} {n : Coord}
    (hi : Table.get? s.regions id = some i) (hc : i.box.contains c = true)
    (hn : (Box.neighborhood c).contains n = true) : s.isRetained n = true := by
  unfold StreamState.isRetained
  rw [List.any_eq_true]
  exact ⟨i, Table.mem_values_of_get?_eq_some hi,
    Box.contains_expand_retention hc hn⟩

/-! ## The sweep within an update -/

/-- The state after the sweep, before anybody is told of it. -/
def sweptState (setup : Setup σ) (s : StreamState σ) : StreamState σ :=
  (Eviction.sweep setup s).2

theorem compact_eq (s : StreamState σ) :
    Provider.compact setup s
      = (Eviction.sweep setup s).1.foldl
        (fun s c => Eviction.notifyUnloaded c s)
          (sweptState setup s) := rfl

theorem sameStock_compact (setup : Setup σ) (s : StreamState σ) :
    SameStock (sweptState setup s) (Provider.compact setup s) := by
  rw [compact_eq]
  exact SameStock.foldl (fun s c => SameStock.notifyUnloaded c s) _ _

/-! ## Publishing -/

/-- How many readiness events for a coordinate have been sent. -/
def StreamState.sentReady (c : Coord) (s : StreamState σ) : Nat :=
  s.journal.count (.sent (.ready c))

theorem SameStock.sentReady (h : SameStock s t) :
    t.sentReady c = s.sentReady c :=
  h.journal.count_eq rfl

theorem Swept.sentReady (h : Swept setup gone s t) :
    t.sentReady c = s.sentReady c :=
  h.journal.count_eq rfl

/-- The waiting signals have been published, and the stock is otherwise the
same. -/
structure Published (cs : List Coord) (s t : StreamState σ) : Prop where
  near : t.near = s.near
  departed : t.departed = s.departed
  preparing : t.preparing = s.preparing
  announced : t.announced = s.announced
  signals : t.signals = s.signals
  nextAge : t.nextAge = s.nextAge
  far : t.far = s.far
  sent : ∀ c, t.sentReady c = s.sentReady c + cs.count c
  dropped : ∀ c, .noted (.alreadyResident c) ∈ t.journal →
    .noted (.alreadyResident c) ∈ s.journal

theorem SameStock.published (h : SameStock s t) : Published [] s t := by
  refine ⟨h.near, h.departed, h.preparing, h.announced, h.signals,
    h.nextAge, h.far, ?_, ?_⟩
  · intro c
    simpa using h.sentReady
  · intro c hc
    exact (h.journal.mem_iff rfl).1 hc

namespace Published

variable {cs ds : List Coord}

theorem trans (h : Published cs s t) (h' : Published ds t u) :
    Published (cs ++ ds) s u where
  near := h'.near.trans h.near
  departed := h'.departed.trans h.departed
  preparing := h'.preparing.trans h.preparing
  announced := h'.announced.trans h.announced
  signals := h'.signals.trans h.signals
  nextAge := h'.nextAge.trans h.nextAge
  far := h'.far.trans h.far
  sent c := by rw [h'.sent, h.sent, List.count_append, Nat.add_assoc]
  dropped c hc := h.dropped c (h'.dropped c hc)

theorem publishReady (c : Coord) (s : StreamState σ) :
    Published [c] s (Provider.publishReady c s) := by
  have hsent : Published [c] s (s.record (.sent (.ready c))) := by
    refine ⟨rfl, rfl, rfl, rfl, rfl, rfl, rfl, ?_, ?_⟩
    · intro d
      simp only [StreamState.sentReady, StreamState.record, List.count_cons,
        List.count_nil]
      by_cases hd : c = d <;> simp [hd]
    · intro d hd
      simpa [StreamState.record] using hd
  unfold Provider.publishReady
  simp only
  split
  · simpa using hsent.trans (SameStock.updateRegions _ _).published
  · exact hsent

theorem foldl (cs : List Coord) (s : StreamState σ) :
    Published cs s (cs.foldl (fun s c => Provider.publishReady c s) s) := by
  induction cs generalizing s with
  | nil => exact (SameStock.refl s).published
  | cons c cs ih => exact (publishReady c s).trans (ih _)

theorem drainSignals (s : StreamState σ) :
    Published s.signals { s with signals := [] } (Provider.drainSignals s) :=
  foldl _ _

end Published

/-! ## The last stages of an update -/

theorem preparing_compact (setup : Setup σ) (s : StreamState σ) :
    (Provider.compact setup (Provider.drainSignals s)).preparing
        = s.preparing := by
  rw [(sameStock_compact setup _).preparing, sweptState,
    (Eviction.sweep_spec setup _).1.preparing,
    (Published.drainSignals s).preparing]

theorem isResident_compact (setup : Setup σ) (s : StreamState σ) (c : Coord) :
    (Provider.compact setup (Provider.drainSignals s)).isResident c = true ↔
      s.isResident c = true
          ∧ c ∉ (Eviction.sweep setup (Provider.drainSignals s)).1 := by
  rw [StreamState.isResident_congr (sameStock_compact setup _).near, sweptState,
    (Eviction.sweep_spec setup _).1.isResident,
    StreamState.isResident_congr (Published.drainSignals s).near]
  rfl

theorem isReady_compact (setup : Setup σ) (s : StreamState σ) (c : Coord) :
    (Provider.compact setup (Provider.drainSignals s)).isReady c = true ↔
      s.isReady c = true ∧ ∀ n, (Box.neighborhood c).contains n = true →
        n ∉ (Eviction.sweep setup (Provider.drainSignals s)).1 := by
  rw [StreamState.isReady_congr (sameStock_compact setup _).near, sweptState,
    (Eviction.sweep_spec setup _).1.isReady,
    StreamState.isReady_congr (Published.drainSignals s).near]
  rfl

/-- Neither publishing nor sweeping finds a place taken. -/
theorem free_compact (setup : Setup σ) {s : StreamState σ} {c : Coord}
    (h : .noted (.alreadyResident c)
      ∈ (Provider.compact setup (Provider.drainSignals s)).journal) :
    .noted (.alreadyResident c) ∈ s.journal := by
  rw [(sameStock_compact setup _).journal.mem_iff rfl, sweptState,
    (Eviction.sweep_spec setup _).1.journal.mem_iff rfl] at h
  exact (Published.drainSignals s).dropped c h

end ChunkStream
