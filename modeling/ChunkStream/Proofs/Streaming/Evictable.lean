import ChunkStream.Proofs.Streaming.Flushing

/-!
# What a sweep evicts

A sweep tries the chunks that no region retains, oldest first, until the cache
is within its budget.  It skips a chunk that somebody holds and one that the far
tier refuses, and does not count them.  So it evicts the first of those that the
far tier takes in their turn, as many as the cache has too many, or all of them.
Where what the far tier has taken does not change what it says to another chunk,
they are the oldest of those that could be evicted when the sweep began.
-/

namespace ChunkStream

variable {σ : Type}

/-- What is relied on of a far tier.  A chunk that it took, if it fits, comes
back with its tag and content, and what is stored for others stays. -/
structure FarTier.Dependable (tier : FarTier σ) (fits : Chunk → Prop) :
    Prop where
  kept : ∀ chunk far next, fits chunk → tier.put chunk far = .ok next →
    ∃ copy, tier.get chunk.coord next = .ok (some copy)
      ∧ copy.copy = chunk.copy
  others : ∀ chunk far next c, tier.put chunk far = .ok next →
    c ≠ chunk.coord → tier.get c next = tier.get c far

/-- Whether the tier takes a chunk does not depend on what it has taken
before. -/
def FarTier.Steady (tier : FarTier σ) : Prop :=
  ∀ chunk other far next, tier.put other far = .ok next →
    (tier.put chunk next).isOk = (tier.put chunk far).isOk

/-- The store in memory takes every chunk that has content, until it is
closed. -/
theorem FarStore.isOk_put (s : FarStore) (chunk : Chunk) :
    (s.put chunk).isOk = (!s.closed && !chunk.isReleased) := by
  unfold FarStore.put Chunk.isReleased
  cases s.closed <;> cases chunk.content <;> rfl

/-- The store in memory can be relied on for all content that a payload has room
for. -/
theorem FarStore.dependable_tier :
    FarStore.tier.Dependable
      fun chunk => ∀ b, chunk.content = some b → b.Storable where
  kept chunk far next hfits h := by
    obtain ⟨b, htook⟩ := took_of_put h
    refine ⟨_, htook.get_self (hfits b htook.content), ?_⟩
    rw [Chunk.copy, Chunk.copy, htook.content]
    rfl
  others chunk far next c h hc := by
    obtain ⟨b, htook⟩ := took_of_put h
    exact htook.get_of_ne hc

theorem FarStore.steady_tier : FarStore.tier.Steady := by
  intro chunk other far next h
  obtain ⟨b, htook⟩ := took_of_put h
  show (next.put chunk).isOk = (far.put chunk).isOk
  rw [isOk_put, isOk_put, htook.closed, htook.opened]

variable {setup : Setup σ} {fits : Chunk → Prop} {s t u : StreamState σ}
  {c : Coord} {r : Resident} {e : Coord × Resident}
  {out : List (Coord × Resident)}

/-! ## What may be evicted -/

/-- Nobody holds the chunk, and the far tier takes it. -/
def Resident.isFree (setup : Setup σ) (s : StreamState σ) (r : Resident) :
    Bool :=
  !r.chunk.locked && (setup.tier.put r.chunk s.far).isOk

/-- The list has the resident chunks that no region retains, that nobody holds
and that the far tier takes, the oldest first. -/
structure Evictable (setup : Setup σ) (s : StreamState σ)
    (es : List (Coord × Resident)) : Prop where
  perm : es.Perm
    (s.near.filter fun e => !s.isRetained e.1 && e.2.isFree setup s)
  sorted : es.Pairwise fun a b => a.2.age < b.2.age

/-- Those of some residents whom nobody holds and whom the far tier takes when
they are offered to it one after the other. -/
def Eviction.accepted (setup : Setup σ) :
    σ → List (Coord × Resident) → List (Coord × Resident)
  | _, [] => []
  | far, e :: es =>
      if e.2.chunk.locked then accepted setup far es
      else
        match setup.tier.put e.2.chunk far with
        | .error _ => accepted setup far es
        | .ok next => e :: accepted setup next es

/-- The first list has the resident chunks that no region retains, the oldest
first, and the second one those of them that nobody holds and that the far tier
takes in their turn. -/
structure EvictableInTurn (setup : Setup σ) (s : StreamState σ)
    (line es : List (Coord × Resident)) : Prop where
  perm : line.Perm (s.near.filter fun e => !s.isRetained e.1)
  sorted : line.Pairwise fun a b => a.2.age < b.2.age
  accepted : es = Eviction.accepted setup s.far line

/-- Where the chunks are kept by age, the line is in the order in which they are
kept. -/
theorem EvictableInTurn.line_eq {line es : List (Coord × Resident)}
    (h : EvictableInTurn setup s line es)
    (hsorted : (s.near.filter fun e => !s.isRetained e.1).Pairwise
      fun a b => a.2.age < b.2.age) :
    line = s.near.filter fun e => !s.isRetained e.1 :=
  List.Perm.eq_of_pairwise
    (fun _ _ _ _ hab hba => absurd (Nat.lt_trans hab hba) (Nat.lt_irrefl _))
    h.sorted hsorted h.perm

/-- The second state is the first one with some chunks moved from the near cache
to the far tier: they are neither resident nor announced any more, they have
lost their content, nobody holds them, and the far tier took them in turn and
gives them back.  All else is as it was, up to remarks in the journal. -/
structure Relocated (setup : Setup σ) (fits : Chunk → Prop)
    (out : List (Coord × Resident)) (s t : StreamState σ) : Prop where
  frame : t = { s with
    near := s.near.filter fun e => e.1 ∉ out.map Prod.fst
    announced := s.announced.filter fun c => c ∉ out.map Prod.fst
    departed :=
      (out.map fun e => { e.2 with chunk := e.2.chunk.release }).reverse
        ++ s.departed
    far := t.far
    journal := t.journal }
  unlocked : ∀ e ∈ out, e.2.chunk.locked = false
  taken : out.foldlM (fun far e => setup.tier.put e.2.chunk far) s.far
    = .ok t.far
  stored : ∀ e ∈ out, fits e.2.chunk →
    ∃ copy, setup.tier.get e.1 t.far = .ok (some copy)
      ∧ copy.copy = e.2.chunk.copy
  others : ∀ c, c ∉ out.map Prod.fst →
    setup.tier.get c t.far = setup.tier.get c s.far
  journal : Asides s.journal t.journal

namespace Relocated

theorem of_annotated (h : Annotated s t) : Relocated setup fits [] s t := by
  rw [h.frame]
  exact ⟨by simp, by simp, rfl, by simp, fun _ _ => rfl, h.journal⟩

/-- One more chunk is moved before the others. -/
theorem cons (h : Relocated setup fits [e] s t)
    (h' : Relocated setup fits out t u) (he : e.1 ∉ out.map Prod.fst) :
    Relocated setup fits (e :: out) s u where
  frame := by
    have hstays (d : Coord) : decide (d ∉ (e :: out).map Prod.fst)
        = (decide (d ∉ out.map Prod.fst) && decide (d ∉ [e].map Prod.fst)) := by
      rw [← Bool.decide_and, decide_eq_decide, List.map_cons, List.mem_cons]
      simp only [List.map_cons, List.map_nil, List.mem_singleton]
      exact ⟨fun hd => ⟨fun hout => hd (.inr hout), fun hde => hd (.inl hde)⟩,
        fun hd hor => hor.elim hd.2 hd.1⟩
    rw [h'.frame, h.frame]
    simp only [hstays, List.filter_filter]
    simp
  unlocked q hq := by
    rcases List.mem_cons.1 hq with rfl | hq
    · exact h.unlocked q List.mem_cons_self
    · exact h'.unlocked q hq
  taken := by
    have hone : setup.tier.put e.2.chunk s.far = .ok t.far := by
      simpa [List.foldlM] using h.taken
    rw [List.foldlM_cons, hone]
    exact h'.taken
  stored q hq hfits := by
    rcases List.mem_cons.1 hq with rfl | hq
    · rw [h'.others q.1 he]
      exact h.stored q List.mem_cons_self hfits
    · exact h'.stored q hq hfits
  others d hd := by
    rw [List.map_cons, List.mem_cons, not_or] at hd
    rw [h'.others d hd.2]
    exact h.others d (by simpa using hd.1)
  journal := h.journal.trans h'.journal

/-- A remark before the moves changes nothing. -/
theorem annotated (h : Annotated s t) (h' : Relocated setup fits out t u) :
    Relocated setup fits out s u := by
  obtain ⟨hframe, hunlocked, htaken, hstored, hothers, hjournal⟩ := h'
  have hjournal' := h.journal.trans hjournal
  rw [h.frame] at hframe htaken hothers
  exact ⟨hframe, hunlocked, htaken, hstored, hothers, hjournal'⟩

theorem resident?_of_ne (h : Relocated setup fits [e] s t) {d : Coord}
    (hd : d ≠ e.1) : t.resident? d = s.resident? d := by
  have hget := Table.get?_filter_keys s.near
    (fun k => decide (k ∉ [e].map Prod.fst)) d
  rw [StreamState.resident?, h.frame, hget]
  exact if_pos (by simpa using hd)

/-- As many chunks leave the near cache as are moved. -/
theorem length_near (h : Relocated setup fits out s t)
    (hkeys : (Table.keys s.near).Nodup) (hout : out.Nodup)
    (hmem : ∀ e ∈ out, e ∈ s.near) :
    t.near.length + out.length = s.near.length := by
  have hgone : (s.near.filter fun e => e.1 ∈ out.map Prod.fst).Perm out := by
    rw [List.perm_ext_iff_of_nodup (hkeys.of_map.filter _) hout]
    intro q
    rw [List.mem_filter, decide_eq_true_iff]
    constructor
    · rintro ⟨hq, hkey⟩
      obtain ⟨q', hq', heq⟩ := List.mem_map.1 hkey
      rwa [← List.inj_on_of_nodup_map hkeys (hmem q' hq') hq heq]
    · exact fun hq => ⟨hmem q hq, List.mem_map_of_mem hq⟩
  have hsplit := List.length_eq_length_filter_add (l := s.near)
    fun e => decide (e.1 ∈ out.map Prod.fst)
  rw [h.frame, hsplit, hgone.length_eq, Nat.add_comm]
  simp

end Relocated

/-! ## Residents in line -/

/-- Residents that wait for their eviction, each under the coordinate of its
chunk. -/
structure InLine (s : StreamState σ) (es : List (Coord × Resident)) :
    Prop where
  keys : (es.map Prod.fst).Nodup
  resident : ∀ e ∈ es, s.resident? e.1 = some e.2
  coord : ∀ e ∈ es, e.2.chunk.coord = e.1
  announced : s.announced.Nodup

namespace InLine

variable {es : List (Coord × Resident)}

theorem tail (h : InLine s (e :: es)) : InLine s es where
  keys := (List.nodup_cons.1 h.keys).2
  resident q hq := h.resident q (List.mem_cons_of_mem e hq)
  coord q hq := h.coord q (List.mem_cons_of_mem e hq)
  announced := h.announced

theorem annotated (h : InLine s es) (hnote : Annotated s t) : InLine t es := by
  rw [hnote.frame]
  exact ⟨h.keys, h.resident, h.coord, h.announced⟩

theorem not_mem (h : InLine s (e :: es)) : e.1 ∉ es.map Prod.fst :=
  (List.nodup_cons.1 h.keys).1

/-- When the first one has gone, the others are still there. -/
theorem relocated (h : InLine s (e :: es))
    (hmoved : Relocated setup fits [e] s t) : InLine t es where
  keys := h.tail.keys
  resident q hq := by
    have hne : q.1 ≠ e.1 := fun heq =>
      h.not_mem (List.mem_map.2 ⟨q, hq, heq⟩)
    rw [hmoved.resident?_of_ne hne]
    exact h.tail.resident q hq
  coord := h.tail.coord
  announced := by
    rw [hmoved.frame]
    exact h.announced.filter _

end InLine

namespace Eviction

/-! ## Who is accepted -/

theorem accepted_cons_of_busy {es : List (Coord × Resident)}
    (h : e.2.isFree setup s = false) :
    accepted setup s.far (e :: es) = accepted setup s.far es := by
  rw [Resident.isFree, Bool.and_eq_false_iff, Bool.not_eq_false'] at h
  rw [accepted]
  rcases h with hlocked | hrefused
  · rw [if_pos hlocked]
  · split
    · rfl
    · cases hput : setup.tier.put e.2.chunk s.far with
      | error cause => rfl
      | ok next =>
        rw [hput] at hrefused
        cases hrefused

theorem accepted_cons_of_put {es : List (Coord × Resident)} {far next : σ}
    (hlocked : e.2.chunk.locked = false)
    (hput : setup.tier.put e.2.chunk far = .ok next) :
    accepted setup far (e :: es) = e :: accepted setup next es := by
  rw [accepted, hlocked, if_neg Bool.false_ne_true, hput]

theorem accepted_sublist (setup : Setup σ) (es : List (Coord × Resident))
    (far : σ) : (accepted setup far es).Sublist es := by
  induction es generalizing far with
  | nil => exact .slnil
  | cons e es ih =>
    rw [accepted]
    split
    · exact (ih far).cons e
    · split
      · exact (ih far).cons e
      · next next _ => exact (ih next).cons_cons e

/-- A tier that what it has taken does not change accepts whom it would have
accepted at the beginning. -/
theorem accepted_eq_filter (hsteady : setup.tier.Steady)
    (es : List (Coord × Resident)) (s : StreamState σ) (far : σ)
    (hsame : ∀ chunk, (setup.tier.put chunk far).isOk
      = (setup.tier.put chunk s.far).isOk) :
    accepted setup far es = es.filter fun e => e.2.isFree setup s := by
  induction es generalizing far with
  | nil => rfl
  | cons e es ih =>
    rw [accepted, List.filter_cons, Resident.isFree, ← hsame]
    cases e.2.chunk.locked with
    | true => exact ih far hsame
    | false =>
      cases hput : setup.tier.put e.2.chunk far with
      | error cause => exact ih far hsame
      | ok next =>
        have hnext := ih next fun chunk =>
          (hsteady chunk e.2.chunk far next hput).trans (hsame chunk)
        exact congrArg (e :: ·) hnext

/-! ## One eviction after the other -/

/-- An eviction takes a chunk that is free, and any other it leaves alone. -/
theorem evict_resident (htier : setup.tier.Dependable fits)
    (hr : s.resident? c = some r) (hcoord : r.chunk.coord = c)
    (hannounced : s.announced.Nodup) :
    (r.isFree setup s = false
        ∧ ∃ t, Annotated s t ∧ evict setup c s = (false, t))
      ∨ ∃ t, setup.tier.put r.chunk s.far = .ok t.far
        ∧ Relocated setup fits [(c, r)] s t
        ∧ evict setup c s = (true, t) := by
  rcases evict_spec setup c s with
    ⟨t, hnote, hevict, hbusy⟩
      | ⟨r', t, hr', hlocked, hput, hjournal, ht, hevict⟩
  · refine .inl ⟨?_, t, hnote, hevict⟩
    rw [Resident.isFree, Bool.and_eq_false_iff, Bool.not_eq_false']
    exact hbusy r hr
  · rw [hr, Option.some.injEq] at hr'
    subst hr'
    refine .inr ⟨t, hput, ?_, hevict⟩
    refine ⟨?_, by simpa using hlocked, by simpa using hput, ?_, ?_, hjournal⟩
    · rw [ht]
      simp [Table.erase, hannounced.erase_eq_filter, bne, beq_eq_decide]
    · simpa [hcoord] using (htier.kept r.chunk s.far t.far · hput)
    · intro d hd
      apply htier.others r.chunk s.far t.far d hput
      simpa [hcoord] using hd

/-- Evicting takes the first of the residents in line that are accepted in their
turn, as many as are wanted, and no other. -/
theorem evictUpTo_first (htier : setup.tier.Dependable fits)
    (es : List (Coord × Resident)) (n : Nat) (s : StreamState σ)
    (hline : InLine s es) :
    ∃ t, evictUpTo setup n (es.map Prod.fst) s
        = (((accepted setup s.far es).take n).map Prod.fst, t)
      ∧ Relocated setup fits ((accepted setup s.far es).take n) s t := by
  induction es generalizing n s with
  | nil =>
    rw [accepted, List.take_nil]
    cases n <;> exact ⟨s, rfl, .of_annotated (.refl s)⟩
  | cons e es ih =>
    cases n with
    | zero =>
      rw [List.take_zero]
      exact ⟨s, rfl, .of_annotated (.refl s)⟩
    | succ n =>
      rw [List.map_cons, evictUpTo]
      rcases evict_resident htier (hline.resident e List.mem_cons_self)
          (hline.coord e List.mem_cons_self) hline.announced with
        ⟨hbusy, t, hnote, hevict⟩ | ⟨t, hput, hmoved, hevict⟩
      · -- a chunk that stays does not count
        have hfar : t.far = s.far := by rw [hnote.frame]
        obtain ⟨u, hrun, hrest⟩ := ih (n + 1) t (hline.tail.annotated hnote)
        rw [hfar] at hrun hrest
        rw [accepted_cons_of_busy hbusy]
        simp only [hevict]
        exact ⟨u, hrun, hrest.annotated hnote⟩
      · have hlocked := hmoved.unlocked e List.mem_cons_self
        obtain ⟨u, hrun, hrest⟩ := ih n t (hline.relocated hmoved)
        rw [accepted_cons_of_put hlocked hput, List.take_succ_cons]
        simp only [hevict, hrun]
        refine ⟨u, rfl, hmoved.cons hrest fun hmem => ?_⟩
        have hsublist := (List.take_sublist n _).trans
          (accepted_sublist setup es t.far)
        exact hline.not_mem ((hsublist.map Prod.fst).subset hmem)

/-! ## The whole sweep -/

/-- The residents that no region retains, the oldest first. -/
def unretained (s : StreamState σ) : List (Coord × Resident) :=
  (s.near.filter fun e => !s.isRetained e.1).mergeSort
    fun a b => a.2.age ≤ b.2.age

theorem unretained_perm (s : StreamState σ) :
    (unretained s).Perm (s.near.filter fun e => !s.isRetained e.1) :=
  List.mergeSort_perm _ _

theorem mem_of_mem_unretained (h : e ∈ unretained s) : e ∈ s.near :=
  List.mem_of_mem_filter ((unretained_perm s).mem_iff.1 h)

/-- Where ages differ, sorting by them leaves one order. -/
theorem pairwise_unretained
    (hages : ((Table.values s.near).map (·.age)).Nodup) :
    (unretained s).Pairwise fun a b => a.2.age < b.2.age := by
  have hle : (unretained s).Pairwise fun a b => a.2.age ≤ b.2.age := by
    have hsorted : (unretained s).Pairwise fun a b =>
        decide (a.2.age ≤ b.2.age) = true :=
      List.pairwise_mergeSort (by simpa using fun a b c => Nat.le_trans)
        (by simpa using fun a b => Nat.le_total _ _) _
    exact hsorted.imp of_decide_eq_true
  have hne : (unretained s).Pairwise fun a b => a.2.age ≠ b.2.age := by
    rw [Table.values, List.map_map] at hages
    have hnodup := ((unretained_perm s).map fun e => e.2.age).nodup_iff.2
      (hages.sublist (List.filter_sublist.map _))
    exact List.pairwise_map.1 hnodup
  exact hle.imp₂ (fun _ _ => Nat.lt_of_le_of_ne) hne

theorem inLine_unretained (hcoord : ∀ e ∈ s.near, e.2.chunk.coord = e.1)
    (hkeys : (Table.keys s.near).Nodup) (hannounced : s.announced.Nodup) :
    InLine s (unretained s) where
  keys := ((unretained_perm s).map Prod.fst).nodup_iff.2
    (hkeys.sublist (List.filter_sublist.map _))
  resident _ he := (Table.get?_eq_some_iff hkeys).2 (mem_of_mem_unretained he)
  coord e he := hcoord e (mem_of_mem_unretained he)
  announced := hannounced

/-- Those that are free among them are what may be evicted, in the order in
which it is. -/
theorem evictable_filter
    (hages : ((Table.values s.near).map (·.age)).Nodup) :
    Evictable setup s ((unretained s).filter fun e => e.2.isFree setup s) where
  perm := by
    have hperm := (unretained_perm s).filter fun e => e.2.isFree setup s
    simpa [List.filter_filter, Bool.and_comm] using hperm
  sorted := (pairwise_unretained hages).filter _

end Eviction

/-- A sweep evicts the first of the chunks that the far tier takes in their turn,
as many as the cache has too many, or all of them, and leaves all else as it
was.  Where what the tier has taken does not matter to what it says, these are
the chunks that might have been evicted when the sweep began. -/
theorem sweep_evicts_oldest (htier : setup.tier.Dependable fits)
    (hcoord : ∀ e ∈ s.near, e.2.chunk.coord = e.1)
    (hkeys : (Table.keys s.near).Nodup)
    (hages : ((Table.values s.near).map (·.age)).Nodup)
    (hannounced : s.announced.Nodup) :
    ∃ line es out t, EvictableInTurn setup s line es
      ∧ (setup.tier.Steady → Evictable setup s es)
      ∧ out = es.take (s.near.length - setup.budget)
      ∧ Eviction.sweep setup s = (out.map Prod.fst, t)
      ∧ Relocated setup fits out s t
      ∧ out.length = min (s.near.length - setup.budget) es.length
      ∧ t.near.length ≤ max setup.budget (s.near.length - es.length)
      ∧ (s.near.length ≤ setup.budget → t = s) := by
  let line := Eviction.unretained s
  have hturn : EvictableInTurn setup s line
      (Eviction.accepted setup s.far line) :=
    ⟨Eviction.unretained_perm s, Eviction.pairwise_unretained hages, rfl⟩
  have hsteady (h : setup.tier.Steady) :
      Evictable setup s (Eviction.accepted setup s.far line) := by
    rw [Eviction.accepted_eq_filter h line s s.far fun _ => rfl]
    exact Eviction.evictable_filter hages
  by_cases hbudget : s.near.length ≤ setup.budget
  · have hsweep : Eviction.sweep setup s = ([], s) := by
      rw [Eviction.sweep, if_pos hbudget]
    rw [Nat.sub_eq_zero_of_le hbudget]
    refine ⟨line, _, [], s, hturn, hsteady, rfl, hsweep,
      .of_annotated (.refl s), by simp, by omega, fun _ => rfl⟩
  · have hline := Eviction.inLine_unretained hcoord hkeys hannounced
    let note := ProviderNotice.compacting s.near.length setup.budget
    have hnote : Annotated s (s.note note) := .record rfl s
    obtain ⟨t, hrun, hmoved⟩ := Eviction.evictUpTo_first htier line
      (s.near.length - setup.budget) _ (hline.annotated hnote)
    have hsublist := (List.take_sublist (s.near.length - setup.budget) _).trans
      (Eviction.accepted_sublist setup line s.far)
    have hlength := (hmoved.annotated hnote).length_near hkeys
      (hline.keys.of_map.sublist hsublist)
      fun e he => Eviction.mem_of_mem_unretained (hsublist.subset he)
    have htaken := List.length_take (i := s.near.length - setup.budget)
      (l := Eviction.accepted setup s.far line)
    refine ⟨line, _, _, t, hturn, hsteady, rfl, ?_, hmoved.annotated hnote,
      htaken, ?_, fun hle => absurd hle hbudget⟩
    · rw [Eviction.sweep, if_neg hbudget]
      exact hrun
    · have hcount : t.near.length
          + ((Eviction.accepted setup s.far line).take
            (s.near.length - setup.budget)).length = s.near.length := hlength
      omega

/-- Five chunks are made resident, from west to east.  The first one is held,
the second one has lost its content, and an observer retains the third one. -/
def Act.crowd : List Act :=
  (List.range 5).map (fun i : Nat => .request ⟨20 * Int32.ofNat i, 0, 0⟩)
    ++ List.replicate 5 .work
    ++ [.lock ⟨0, 0, 0⟩, .edit ⟨20, 0, 0⟩ .release,
      .move 1 (some ⟨40, 0, 0⟩), .track 1 0 false]

/-- The far tier with room for one chunk. -/
def FarTier.niche : FarTier (Table Coord Chunk) :=
  { FarTier.shelf with
    put := fun chunk t =>
      if t.isEmpty then .ok [(chunk.coord, chunk)] else .error .closed }

theorem FarTier.dependable_niche : niche.Dependable fun _ => True := by
  have hone {chunk : Chunk} {far next : Table Coord Chunk}
      (h : niche.put chunk far = .ok next) :
      far = [] ∧ next = [(chunk.coord, chunk)] := by
    cases far with
    | nil =>
      cases h
      exact ⟨rfl, rfl⟩
    | cons e far => cases h
  constructor
  · intro chunk far next _ h
    obtain ⟨rfl, rfl⟩ := hone h
    refine ⟨chunk, ?_, rfl⟩
    show Except.ok (Table.get? [(chunk.coord, chunk)] chunk.coord) = _
    rw [Table.get?, if_pos rfl]
  · intro chunk far next c h hc
    obtain ⟨rfl, rfl⟩ := hone h
    show Except.ok (Table.get? [(chunk.coord, chunk)] c) = Except.ok none
    rw [Table.get?, if_neg (Ne.symm hc)]
    rfl

/-- With room for four chunks there is one too many, and of the two that may be
evicted the older one goes.  Where the far tier has room for one chunk, the
oldest of three fills it, although it would have taken any of them. -/
theorem sweep_evicts_oldest_of_crowd :
    let setup := Setup.stored 4
    let s := (Session.run setup Act.crowd
      (.ofProvider (.stored 4))).provider.state
    let narrow := { Setup.plain 0 with tier := .niche }
    let r := (Session.run narrow
      [.requestBox ⟨.origin, ⟨2, 0, 0⟩⟩, .work, .work, .work]
      (.ofProvider (.plain 0))).provider.state
    s.near.length = 5
      ∧ (s.near.filter fun e => !s.isRetained e.1 && e.2.isFree setup s).map
        Prod.fst = [⟨60, 0, 0⟩, ⟨80, 0, 0⟩]
      ∧ (∃ line es out t, EvictableInTurn setup s line es
        ∧ Evictable setup s es
        ∧ out = es.take (s.near.length - setup.budget)
        ∧ Eviction.sweep setup s = (out.map Prod.fst, t)
        ∧ Relocated setup (fun chunk => ∀ b, chunk.content = some b →
          b.Storable) out s t
        ∧ out.length = min (s.near.length - setup.budget) es.length
        ∧ t.near.length ≤ max setup.budget (s.near.length - es.length)
        ∧ (s.near.length ≤ setup.budget → t = s))
      ∧ (r.near.filter fun e => !r.isRetained e.1 && e.2.isFree narrow r).map
        Prod.fst = [.origin, ⟨1, 0, 0⟩, ⟨2, 0, 0⟩]
      ∧ ∃ line es out t, EvictableInTurn narrow r line es
        ∧ es.map Prod.fst = [.origin]
        ∧ out = es.take 3
        ∧ Eviction.sweep narrow r = (out.map Prod.fst, t)
        ∧ Relocated narrow (fun _ => True) out r t := by
  intro setup s narrow r
  have hstore : setup.tier.Dependable _ := FarStore.dependable_tier
  have hniche : narrow.tier.Dependable _ := FarTier.dependable_niche
  obtain ⟨line, es, out, t, hturn, hsteady, hrest⟩ :=
    sweep_evicts_oldest (s := s) hstore (by decide +kernel)
      (by decide +kernel) (by decide +kernel) (by decide +kernel)
  obtain ⟨line', es', out', t', hturn', -, hout', hsweep', hmoved', -⟩ :=
    sweep_evicts_oldest (s := r) hniche (by decide +kernel)
      (by decide +kernel) (by decide +kernel) (by decide +kernel)
  have hexcess : r.near.length - narrow.budget = 3 := by decide +kernel
  rw [hexcess] at hout'
  have hfirst : es'.map Prod.fst = [.origin] := by
    rw [hturn'.accepted, hturn'.line_eq (by decide +kernel)]
    decide +kernel
  exact ⟨by decide +kernel, by decide +kernel,
    ⟨line, es, out, t, hturn, hsteady FarStore.steady_tier, hrest⟩,
    by decide +kernel,
    ⟨line', es', out', t', hturn', hfirst, hout', hsweep', hmoved'⟩⟩

end ChunkStream
