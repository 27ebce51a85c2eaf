import ChunkStream.Proofs.Streaming.Advance

/-!
# What acts do

An act of a session is a call on the provider or a step of its worker, it
handles a chunk that somebody holds, or it ends the session.  A holder changes
chunks where they are: no chunk comes or goes, and none changes its age.  As no
two resident chunks have the same age, an edit that leaves the completion tag
alone leaves all tags alone.
-/

namespace ChunkStream

variable {σ : Type} {setup : Setup σ}

namespace Act

/-- Calls on the provider and steps of the worker, apart from updates, marks and
the end. -/
def isCall : Act → Bool
  | move .. | track .. | setDistance .. | untrack .. | request ..
    | requestBox .. | work
  | keep .. => true
  | update | markReady .. | lock .. | unlock .. | edit .. | dispose => false

/-- What holders of chunks do. -/
def isHandling : Act → Bool
  | lock .. | unlock .. | edit .. => true
  | _ => false

/-- The session goes on, and nobody outside changes a completion tag. -/
def isTame : Act → Bool
  | dispose | edit _ (.completion _) => false
  | _ => true

end Act

/-! ## Chunks in hands -/

/-- The change leaves the completion tag alone. -/
def Resident.SameTag (r r' : Resident) : Prop :=
  r'.chunk.completion = r.chunk.completion

/-- The change does not lock. -/
def Resident.StaysFree (r r' : Resident) : Prop :=
  r.chunk.locked = false → r'.chunk.locked = false

/-- Chunks have been changed where they are, each in a way that `P` allows. -/
structure Handled (P : Resident → Resident → Prop)
    (s t : StreamState σ) : Prop where
  frame : t = { s with near := t.near, departed := t.departed }
  near : ∃ g : Resident → Resident, t.near = Table.mapValues s.near g
    ∧ ∀ r ∈ Table.values s.near, (g r).age = r.age ∧ P r (g r)

namespace Handled

variable {P Q : Resident → Resident → Prop} {s t u : StreamState σ} {c : Coord}

protected theorem refl (hP : ∀ r, P r r) (s : StreamState σ) : Handled P s s :=
  ⟨rfl, id, by simp [Table.mapValues], fun r _ => ⟨rfl, hP r⟩⟩

protected theorem trans (hP : ∀ q r r', P q r → P r r' → P q r')
    (h : Handled P s t) (h' : Handled P t u) : Handled P s u := by
  obtain ⟨g, hg, hgood⟩ := h.near
  obtain ⟨g', hg', hgood'⟩ := h'.near
  refine ⟨?_, g' ∘ g, ?_, ?_⟩
  · rw [h'.frame, h.frame]
  · rw [hg', hg]
    simp [Table.mapValues, Function.comp_def]
  · intro r hr
    have hmem : g r ∈ Table.values t.near := by
      rw [hg, Table.values_mapValues]
      exact List.mem_map_of_mem hr
    obtain ⟨hage, hstep⟩ := hgood r hr
    obtain ⟨hage', hstep'⟩ := hgood' (g r) hmem
    exact ⟨hage'.trans hage, hP _ _ _ hstep hstep'⟩

theorem keys (h : Handled P s t) : Table.keys t.near = Table.keys s.near := by
  obtain ⟨g, hg, -⟩ := h.near
  rw [hg, Table.keys_mapValues]

theorem isResident (h : Handled P s t) (c : Coord) :
    t.isResident c = s.isResident c := by
  obtain ⟨g, hg, -⟩ := h.near
  simp [StreamState.isResident, StreamState.resident?, hg, Table.get?_mapValues]

/-- Where tags are left alone, so is completeness. -/
theorem isResidentComplete (h : Handled Resident.SameTag s t) (c : Coord) :
    t.isResidentComplete c = s.isResidentComplete c := by
  obtain ⟨g, hg, hgood⟩ := h.near
  simp only [StreamState.isResidentComplete, StreamState.resident?, hg,
    Table.get?_mapValues]
  cases hr : Table.get? s.near c with
  | none => rfl
  | some r =>
    have hmem : r ∈ Table.values s.near := Table.mem_values_of_get?_eq_some hr
    have htag : (g r).chunk.completion = r.chunk.completion := (hgood r hmem).2
    simp [Chunk.isComplete, htag]

end Handled

/-! ## Ages -/

/-- Resident chunks are one to a coordinate and have distinct ages, and the next
age is new. -/
structure WellAged (s : StreamState σ) : Prop where
  keys : (Table.keys s.near).Nodup
  ages : ((Table.values s.near).map (·.age)).Nodup
  below : ∀ r ∈ Table.values s.near, r.age < s.nextAge

namespace WellAged

variable {s t : StreamState σ}

theorem of_ages (hs : WellAged s)
    (hkeys : Table.keys t.near = Table.keys s.near)
    (hages : (Table.values t.near).map (·.age)
      = (Table.values s.near).map (·.age))
    (hnext : t.nextAge = s.nextAge) : WellAged t := by
  refine ⟨hkeys ▸ hs.keys, hages ▸ hs.ages, ?_⟩
  intro r hr
  have hage : r.age ∈ (Table.values s.near).map (·.age) :=
    hages ▸ List.mem_map_of_mem hr
  obtain ⟨r', hr', heq⟩ := List.mem_map.1 hage
  rw [hnext, ← heq]
  exact hs.below r' hr'

theorem of_near (hs : WellAged s) (hnear : t.near = s.near)
    (hnext : t.nextAge = s.nextAge) : WellAged t :=
  hs.of_ages (by rw [hnear]) (by rw [hnear]) hnext

theorem of_near_eq_nil (hnear : s.near = []) : WellAged s := by
  refine ⟨?_, ?_, ?_⟩ <;> simp [hnear, Table.keys, Table.values]

theorem of_sublist (hs : WellAged s) (hnear : t.near.Sublist s.near)
    (hnext : t.nextAge = s.nextAge) : WellAged t := by
  refine ⟨hs.keys.sublist (hnear.map _), hs.ages.sublist ((hnear.map _).map _),
    ?_⟩
  intro r hr
  rw [hnext]
  exact hs.below r ((hnear.map _).subset hr)

theorem of_handled {P : Resident → Resident → Prop} (hs : WellAged s)
    (h : Handled P s t) : WellAged t := by
  obtain ⟨g, hg, hgood⟩ := h.near
  refine hs.of_ages h.keys ?_ (by rw [h.frame])
  rw [hg, Table.values_mapValues, List.map_map]
  exact List.map_congr_left fun r hr => (hgood r hr).1

theorem adjustChunk (hs : WellAged s) (c : Coord) (f : Chunk → Chunk) :
    WellAged (s.adjustChunk c f) := by
  have hages := Table.map_values_adjust (g := fun r : Resident => r.age)
    (f := fun r => { r with chunk := f r.chunk }) (fun _ => rfl) s.near c
  exact hs.of_ages (Table.keys_adjust _ _ _) hages rfl

theorem install (hs : WellAged s) (c : Coord) (chunk : Chunk) :
    WellAged (s.install c chunk) := by
  unfold StreamState.install
  by_cases hheld : s.isResident c = true
  · rw [if_pos hheld]
    exact hs.of_near rfl rfl
  · rw [if_neg hheld]
    have hnew : c ∉ Table.keys s.near :=
      fun h => hheld (StreamState.isResident_iff_mem_keys.2 h)
    refine ⟨Table.nodup_keys_insert hs.keys c _, ?_, ?_⟩
    · simp only [Table.insert_of_not_mem _ hnew, Table.values, List.map_append,
        List.map_cons,
        List.map_nil]
      refine List.nodup_append.2
        ⟨hs.ages, by simp, ?_⟩
      intro age hage other hother
      obtain ⟨r, hr, rfl⟩ := List.mem_map.1 hage
      rw [List.mem_singleton.1 hother]
      exact Nat.ne_of_lt (hs.below r hr)
    · intro r hr
      simp only [Table.insert_of_not_mem _ hnew, Table.values, List.map_append,
        List.map_cons,
        List.map_nil, List.mem_append, List.mem_singleton] at hr
      rcases hr with hr | rfl
      · exact Nat.lt_succ_of_lt (hs.below r hr)
      · exact Nat.lt_succ_self _

/-- An age is the age of one resident chunk. -/
theorem eq_of_age_eq (hs : WellAged s) {r r' : Resident}
    (hr : r ∈ Table.values s.near)
    (hr' : r' ∈ Table.values s.near) (h : r.age = r'.age) : r = r' :=
  List.inj_on_of_nodup_map hs.ages hr hr' h

end WellAged

/-! ## Acts of holders -/

theorem Edit.apply_eq_some {e : Edit} {chunk next : Chunk}
    (h : e.apply chunk = .ok (some next)) :
    next.locked = chunk.locked
      ∧ ((∀ tag, e ≠ .completion tag) →
          next.completion = chunk.completion) := by
  cases e with
  | completion tag =>
    simp only [apply, Except.ok.injEq, Option.some.injEq] at h
    subst h
    exact ⟨rfl, fun hne => absurd rfl (hne tag)⟩
  | block cell block =>
    simp only [apply, Chunk.set] at h
    cases hcontent : chunk.content with
    | none => simp [hcontent] at h
    | some b =>
      cases hset : b.set cell block with
      | error cause => simp [hcontent, hset, bind, Except.bind] at h
      | ok b' =>
        simp only [hcontent, hset, bind, Except.bind, pure, Except.pure,
          Except.ok.injEq,
          Option.some.injEq] at h
        subst h
        exact ⟨rfl, fun _ => rfl⟩
  | release =>
    simp only [apply, Except.ok.injEq, Option.some.injEq] at h
    subst h
    exact ⟨rfl, fun _ => rfl⟩

namespace Session

variable {P : Resident → Resident → Prop} {s : Session σ} {c : Coord} {a : Act}

/-- The chunk of a resident's handle is that of a resident of the same age. -/
theorem exists_resident_of_chunk? {r : Resident} {chunk : Chunk}
    (hr : r ∈ Table.values s.provider.state.near)
    (h : s.chunk? r.age = some chunk) :
    ∃ r' ∈ Table.values s.provider.state.near, r'.age = r.age
        ∧ r'.chunk = chunk := by
  unfold chunk? at h
  obtain ⟨r', hfind, rfl⟩ := Option.map_eq_some_iff.1 h
  rw [List.find?_append] at hfind
  cases hnear : (Table.values s.provider.state.near).find? fun q =>
    decide (q.age = r.age) with
  | none => simpa using List.find?_eq_none.1 hnear r hr
  | some q =>
    rw [hnear, Option.some_or, Option.some.injEq] at hfind
    subst hfind
    exact ⟨q, List.mem_of_find?_eq_some
      hnear, by simpa using List.find?_some hnear, rfl⟩

theorem handled_adjust (hrefl : ∀ r, P r r) (handle : Nat) (f : Chunk → Chunk)
    (hf : ∀ r ∈ Table.values s.provider.state.near, r.age = handle →
      P r { r with chunk := f r.chunk }) :
    ∃ t, Handled P s.provider.state t
      ∧ (s.adjust handle f).provider = s.provider.modifyState fun _ => t := by
  refine ⟨_, ⟨rfl, fun r => if r.age
    = handle then { r with chunk := f r.chunk } else r, ?_, ?_⟩, rfl⟩
  · rfl
  · intro r hr
    beta_reduce
    by_cases hage : r.age = handle
    · rw [if_pos hage]
      exact ⟨rfl, hf r hr hage⟩
    · rw [if_neg hage]
      exact ⟨rfl, hrefl r⟩

theorem handled_unlock (hrefl : ∀ r, P r r)
    (hunlock : ∀ r : Resident, P r { r with chunk := r.chunk.unlock })
    (c : Coord)
    (s : Session σ) :
    ∃ t, Handled P s.provider.state t
      ∧ (s.unlock c).2.provider = s.provider.modifyState fun _ => t := by
  unfold unlock
  cases Table.get? s.locks c with
  | none => exact ⟨_, .refl hrefl _, rfl⟩
  | some handle =>
    exact handled_adjust hrefl handle Chunk.unlock fun r _ _ => hunlock r

theorem handled_lock (hrefl : ∀ r, P r r)
    (htrans : ∀ q r r', P q r → P r r' → P q r')
    (hunlock : ∀ r : Resident, P r { r with chunk := r.chunk.unlock })
    (hlock : ∀ r : Resident, P r { r with chunk := r.chunk.lock }) (c : Coord)
    (s : Session σ) :
    ∃ t, Handled P s.provider.state t
      ∧ (s.lock c).2.provider = s.provider.modifyState fun _ => t := by
  unfold lock
  cases s.handle? c with
  | none => exact ⟨_, .refl hrefl _, rfl⟩
  | some handle =>
    simp only
    split
    · exact ⟨_, .refl hrefl _, rfl⟩
    · obtain ⟨t, ht, hprovider⟩ := handled_unlock hrefl hunlock c s
      obtain ⟨u, hu, hprovider'⟩ :=
        handled_adjust (s := (s.unlock c).2) hrefl handle Chunk.lock
        fun r _ _ => hlock r
      have hstate : (s.unlock c).2.provider.state = t := by rw [hprovider]; rfl
      rw [hstate] at hu
      refine ⟨u, ht.trans htrans hu, ?_⟩
      simp only [hprovider', hprovider]
      rfl

/-- An edit changes nothing, or it changes the chunk that its handle is for. -/
theorem edit_cases (setup : Setup σ) (c : Coord) (e : Edit) (s : Session σ) :
    (s.step setup (.edit c e)).provider = s.provider
      ∨ ∃ handle chunk next, s.handle? c = some handle
        ∧ s.chunk? handle = some chunk ∧ e.apply chunk = .ok (some next)
        ∧ s.step setup (.edit c e) = s.adjust handle fun _ => next := by
  simp only [step, edit]
  cases hhandle : s.handle? c with
  | none => exact .inl rfl
  | some handle =>
    cases hchunk : s.chunk? handle with
    | none => exact .inl (by simp [hchunk])
    | some chunk =>
      cases happly : e.apply chunk with
      | error cause => exact .inl (by simp [hchunk, happly, bind, Except.bind])
      | ok result =>
        cases result with
        | none =>
          exact .inl (by simp [hchunk, happly, bind, Except.bind, pure,
            Except.pure])
        | some next =>
          exact .inr ⟨handle, chunk, next, rfl, hchunk, happly, by
            simp [hchunk, happly, bind, Except.bind, pure, Except.pure]⟩

/-- What a holder may make of a chunk by an edit is what it may make of a
resident chunk. -/
theorem handled_edit (hrefl : ∀ r, P r r) {e : Edit}
    (hedit : ∀ r ∈ Table.values s.provider.state.near,
      ∀ r' ∈ Table.values s.provider.state.near,
      r'.age = r.age → ∀ next, e.apply r'.chunk = .ok (some next) →
        P r { r with chunk := next }) (c : Coord) :
    ∃ t, Handled P s.provider.state t
      ∧ (s.step setup (.edit c e)).provider
          = s.provider.modifyState fun _ => t := by
  rcases edit_cases setup c e s with
    hsame | ⟨handle, chunk, next, -, hchunk, happly, hstep⟩
  · exact ⟨_, .refl hrefl _, hsame⟩
  · rw [hstep]
    refine handled_adjust hrefl handle (fun _ => next) ?_
    intro r hr hage
    subst hage
    obtain ⟨r', hr', hage', rfl⟩ := exists_resident_of_chunk? hr hchunk
    exact hedit r hr r' hr' hage' next happly

/-- Holders neither bring nor take chunks. -/
theorem handled_step (setup : Setup σ) (ha : a.isHandling = true)
    (s : Session σ) :
    ∃ t, Handled (fun _ _ => True) s.provider.state t
      ∧ (s.step setup a).provider = s.provider.modifyState fun _ => t := by
  cases a with
  | lock c =>
    exact handled_lock (fun _ => trivial) (fun _ _ _ _ _ => trivial)
      (fun _ => trivial) (fun _ => trivial) c s
  | unlock c => exact handled_unlock (fun _ => trivial) (fun _ => trivial) c s
  | edit c e =>
    exact handled_edit (fun _ => trivial) (fun _ _ _ _ _ _ _ => trivial) c
  | _ => simp [Act.isHandling] at ha

/-- Holders leave the tags alone, unless they edit one. -/
theorem handled_step_of_isTame (setup : Setup σ) (ha : a.isHandling = true)
    (htame : a.isTame = true) (hs : WellAged s.provider.state) :
    ∃ t, Handled Resident.SameTag s.provider.state t
      ∧ (s.step setup a).provider = s.provider.modifyState fun _ => t := by
  cases a with
  | lock c =>
    exact handled_lock (P := Resident.SameTag) (fun _ => rfl)
      (fun _ _ _ h h' => Eq.trans h' h) (fun _ => rfl) (fun _ => rfl) c s
  | unlock c =>
    exact handled_unlock (P := Resident.SameTag) (fun _ => rfl)
      (fun _ => rfl) c s
  | edit c e =>
    refine handled_edit (P := Resident.SameTag) (fun _ => rfl) ?_ c
    intro r hr r' hr' hage next happly
    unfold Resident.SameTag
    rw [← hs.eq_of_age_eq hr' hr hage]
    apply (Edit.apply_eq_some happly).2
    intro tag he
    simp [he, Act.isTame] at htame
  | _ => simp [Act.isHandling] at ha

/-- Where nobody locks, holders leave resident chunks unlocked. -/
theorem handled_step_of_unlocked (setup : Setup σ) (ha : a.isHandling = true)
    (hlock : ∀ c, a ≠ .lock c)
    (hs : ∀ r ∈ Table.values s.provider.state.near, r.chunk.locked = false) :
    ∃ t, Handled Resident.StaysFree s.provider.state t
      ∧ (s.step setup a).provider = s.provider.modifyState fun _ => t := by
  cases a with
  | lock c => exact absurd rfl (hlock c)
  | unlock c =>
    exact handled_unlock (P := Resident.StaysFree) (fun _ => id)
      (fun _ _ => rfl) c s
  | edit c e =>
    refine handled_edit (P := Resident.StaysFree) (fun _ => id) ?_ c
    intro r hr r' hr' _ next happly _
    exact (Edit.apply_eq_some happly).1.trans (hs r' hr')
  | _ => simp [Act.isHandling] at ha

/-! ## Acts on the provider -/

theorem asks_step (setup : Setup σ) (ha : a.isCall = true) (hwork : a ≠ .work)
    (s : Session σ) :
    Provider.Asks setup s.provider (s.step setup a).provider := by
  cases a with
  | move id position => exact .refl
  | track id distance listening => exact Provider.asks_addRelevance _ _ _ _ _
  | setDistance id distance => exact Provider.asks_updateRelevance _ _ _
  | untrack id => exact Provider.asks_removeRelevance _ _
  | request c => exact .single (.request _ c)
  | requestBox b => exact Provider.asks_requestBox b _
  | work => exact absurd rfl hwork
  | keep c =>
    have hsame : (s.keep c).2.provider = s.provider := by
      unfold keep
      split <;> rfl
    simp only [step, hsame]
    exact .refl
  | _ => simp [Act.isCall] at ha

theorem advances_step (setup : Setup σ) (ha : a.isCall = true) (s : Session σ) :
    Provider.Advances setup s.provider (s.step setup a).provider := by
  by_cases hwork : a = .work
  · subst hwork
    exact Provider.advances_work _
  · exact (asks_step setup ha hwork s).advances

/-! ## Runs -/

theorem run_concat (acts : List Act) (a : Act) (s : Session σ) :
    s.run setup (acts ++ [a]) = (s.run setup acts).step setup a :=
  List.foldl_concat _ _ _ _

theorem run_append (acts acts' : List Act) (s : Session σ) :
    s.run setup (acts ++ acts') = (s.run setup acts).run setup acts' :=
  List.foldl_append

/-- What holds before a run and is kept by each of its acts, given the acts that
came before, holds after the run. -/
theorem run_induction {P : List Act → Session σ → Prop} {acts : List Act}
    (hstart : P [] s)
    (hstep : ∀ acts' a, acts' ++ [a] <+: acts → P acts' (s.run setup acts') →
      P (acts' ++ [a]) ((s.run setup acts').step setup a)) :
    P acts (s.run setup acts) := by
  induction acts using List.reverseRecOn with
  | nil => exact hstart
  | append_singleton acts a ih =>
    have hbefore : P acts (s.run setup acts) := ih fun acts' b hinit =>
      hstep acts' b (hinit.trans (List.prefix_append acts [a]))
    rw [run_concat]
    exact hstep acts a (List.prefix_refl _) hbefore

/-- What each act of a run keeps, whatever came before, the run keeps. -/
theorem run_preserve {P : Session σ → Prop} {acts : List Act} (hs : P s)
    (hstep : ∀ a ∈ acts, ∀ t, P t → P (t.step setup a)) :
    P (s.run setup acts) :=
  List.foldlRecOn acts _ hs fun t ht a ha => hstep a ha t ht

end Session

/-! ## A plain world

Facts about single runs are shown in a world whose far tier keeps chunks as they
are and whose generator makes empty chunks, complete at once. -/

/-- The far tier that keeps the chunks themselves. -/
def FarTier.shelf : FarTier (Table Coord Chunk) where
  contains c t := Table.contains t c
  get c t := .ok (Table.get? t c)
  put chunk t := .ok (Table.insert t chunk.coord chunk)
  close t := t
  save _ := []
  count t := t.length

/-- The generator of empty chunks. -/
def Generator.plain : Generator where
  generate c := .ok ⟨c, .complete, false, none⟩
  finish := Generator.finishAtOnce

def Setup.plain (budget : Nat) : Setup (Table Coord Chunk) :=
  ⟨.shelf, .plain, budget, "plain", none⟩

/-- The provider of a plain world before anything has happened. -/
def Provider.plain (budget : Nat) : Provider (Table Coord Chunk) where
  pipeline :=
    { state := ((StreamState.start []).note (.pipeline (.started 1))).note
        (.opened "plain" budget 1)
      queue := .empty
      workers := 1
      cancelled := false
      stopped := false
      completed := 0
      failed := 0 }
  disposed := false
  saved := none

/-- The corner of the world, where a neighbourhood has four coordinates. -/
def Coord.corner : Coord := ⟨2147483647, 0, 2147483647⟩

theorem start_plain (budget : Nat) :
    Provider.start (Setup.plain budget) "plain" 1 [] = .ok (.plain budget) :=
      rfl

end ChunkStream
