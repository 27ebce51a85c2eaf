import ChunkStream.Proofs.Streaming.Copies
import ChunkStream.Terrain.Scripted

/-!
# What a flush leaves behind

A flush goes through the resident chunks.  It puts each of them once, held by
somebody or not, and releases it; an open far tier takes all that have not been
released before.  The journal has a put for each of them, and remarks.
-/

namespace ChunkStream

open FarStore (Took)

/-- The entry only says something. -/
def JournalEntry.isRemark : JournalEntry → Bool
  | .noted _ => true
  | _ => false

/-- On top of the first journal the second one has a put for each of the
coordinates, in their order, and remarks. -/
def Puts (cs : List Coord) (js ks : List JournalEntry) : Prop :=
  ∃ es, ks = es ++ js
    ∧ es.filter (!·.isRemark)
      = (cs.map fun c => JournalEntry.called (.put c)).reverse

namespace Puts

variable {cs ds : List Coord} {js ks ls : List JournalEntry}

protected theorem refl (js : List JournalEntry) : Puts [] js js :=
  ⟨[], rfl, rfl⟩

protected theorem trans (h : Puts cs js ks) (h' : Puts ds ks ls) :
    Puts (cs ++ ds) js ls := by
  obtain ⟨es, rfl, hes⟩ := h
  obtain ⟨es', rfl, hes'⟩ := h'
  refine ⟨es' ++ es, (List.append_assoc es' es js).symm, ?_⟩
  rw [List.filter_append, hes, hes', List.map_append, List.reverse_append]

theorem note (n : ProviderNotice) (js : List JournalEntry) :
    Puts [] js (.noted n :: js) :=
  ⟨[.noted n], rfl, rfl⟩

theorem put (c : Coord) (js : List JournalEntry) :
    Puts [c] js (.called (.put c) :: js) :=
  ⟨[.called (.put c)], rfl, rfl⟩

/-- What is neither a remark nor a put is there as often as before. -/
theorem count_eq (h : Puts cs js ks) {e : JournalEntry}
    (hremark : e.isRemark = false) (hput : ∀ c, e ≠ .called (.put c)) :
    ks.count e = js.count e := by
  obtain ⟨es, rfl, hes⟩ := h
  rw [List.count_append, List.count_eq_zero_of_not_mem, Nat.zero_add]
  intro hmem
  have hfiltered : e ∈ es.filter (!·.isRemark) :=
    List.mem_filter.2 ⟨hmem, by simp [hremark]⟩
  rw [hes, List.mem_reverse] at hfiltered
  obtain ⟨c, -, hc⟩ := List.mem_map.1 hfiltered
  exact hput c hc.symm

end Puts

/-- A resident chunk is offered to the far tier and dismissed in any case. -/
theorem Provider.flushChunk_of_chunk? {σ : Type} (setup : Setup σ)
    {s : StreamState σ} {c : Coord} {chunk : Chunk}
    (hchunk : s.chunk? c = some chunk) (n : Nat) :
    ∃ js, Puts [chunk.coord] s.journal js
      ∧ flushChunk setup (n, s) c = match setup.tier.put chunk s.far with
        | .ok far => (n + 1, { s with far := far, journal := js }.dismiss c)
        | .error cause =>
          (n, ({ s with journal := js }.note (.flushRefused c cause)).dismiss
            c) := by
  have hnoted : Puts [] s.journal
      (if chunk.locked then s.note (.flushedLocked c) else s).journal := by
    split
    · exact .note _ _
    · exact .refl _
  refine ⟨_, hnoted.trans (.put chunk.coord _), ?_⟩
  simp only [flushChunk, hchunk]
  cases chunk.locked <;> rfl

/-- What may differ after a chunk has been flushed. -/
theorem Provider.flushChunk_frame {σ : Type} (setup : Setup σ)
    (acc : Nat × StreamState σ) (c : Coord) :
    let s := (flushChunk setup acc c).2
    s = { acc.2 with
      near := Table.erase acc.2.near c
      departed := s.departed
      far := s.far
      journal := s.journal } := by
  obtain ⟨n, s⟩ := acc
  have hdismiss (t : StreamState σ) : t.dismiss c = { t with
      near := Table.erase t.near c, departed := (t.dismiss c).departed } := by
    rw [← StreamState.near_dismiss]
    unfold StreamState.dismiss
    split <;> rfl
  cases hchunk : s.chunk? c with
  | none =>
    have hkey : c ∉ Table.keys s.near := by
      rw [← StreamState.isResident_iff_mem_keys, StreamState.isResident_eq,
        hchunk]
      exact Bool.false_ne_true
    simp only [flushChunk, hchunk, Table.erase_of_not_mem hkey]
  | some chunk =>
    obtain ⟨js, -, hflush⟩ := flushChunk_of_chunk? setup hchunk n
    rw [hflush]
    cases setup.tier.put chunk s.far with
    | ok far =>
      simp only
      rw [hdismiss]
    | error cause =>
      simp only
      rw [hdismiss]
      rfl

/-- Nothing is resident after a flush, and apart from the far tier, the departed
chunks and the journal nothing else has changed. -/
theorem Provider.flush_frame {σ : Type} (setup : Setup σ)
    (s : StreamState σ) :
    let t := (flush setup s).2
    t = { s with
      near := []
      departed := t.departed
      far := t.far
      journal := t.journal } := by
  have hfold (cs : List Coord) (acc : Nat × StreamState σ) :
      let t := (cs.foldl (flushChunk setup) acc).2
      t = { acc.2 with
        near := acc.2.near.filter fun e => e.1 ∉ cs
        departed := t.departed
        far := t.far
        journal := t.journal } := by
    induction cs generalizing acc with
    | nil => simp
    | cons c cs ih =>
      have hfilter : (Table.erase acc.2.near c).filter (fun e => e.1 ∉ cs)
          = acc.2.near.filter fun e => e.1 ∉ c :: cs := by
        rw [Table.erase, List.filter_filter]
        apply List.filter_congr
        intro e _
        simp [Bool.and_comm]
      refine (ih _).trans ?_
      rw [List.foldl_cons, flushChunk_frame, hfilter]
  have hnone : s.near.filter (fun e => e.1 ∉ Table.keys s.near) = [] := by
    rw [List.filter_eq_nil_iff]
    intro e he
    have hkey : e.1 ∈ Table.keys s.near := List.mem_map_of_mem he
    simpa using hkey
  have hall := hfold (Table.keys s.near) (0, s)
  rw [hnone] at hall
  exact hall

variable {setup : Setup FarStore} {s t u : StreamState FarStore} {c : Coord}
  {cs : List Coord}

/-- The chunks of some resident coordinates have been put and dismissed. -/
structure Flushed (cs : List Coord) (s t : StreamState FarStore) : Prop where
  near : t.near = s.near.filter fun e => e.1 ∉ cs
  entries : ∀ d, Table.get? t.far.entries d
    = ((if d ∈ cs then s.chunk? d else none).bind Chunk.stored?).or
        (Table.get? s.far.entries d)
  puts : t.far.puts
    = s.far.puts + cs.countP fun d => (s.chunk? d).any (!·.isReleased)
  closed : t.far.closed = s.far.closed
  measured : s.far.Measured → t.far.Measured
  released : ∀ d ∈ cs, ∀ r, s.resident? d = some r →
    { r with chunk := r.chunk.release } ∈ t.departed
  departed : ∀ r ∈ s.departed, r ∈ t.departed
  journal : Puts cs s.journal t.journal

namespace Flushed

theorem resident? (h : Flushed cs s t) (d : Coord) :
    t.resident? d = if d ∈ cs then none else s.resident? d := by
  have hget := Table.get?_filter_keys s.near (fun k => decide (k ∉ cs)) d
  unfold StreamState.resident?
  rw [h.near, hget]
  by_cases hd : d ∈ cs <;> simp [hd]

theorem chunk? (h : Flushed cs s t) (d : Coord) :
    t.chunk? d = if d ∈ cs then none else s.chunk? d := by
  rw [StreamState.chunk?, h.resident?]
  split <;> rfl

protected theorem nil (s : StreamState FarStore) : Flushed [] s s where
  near := by simp
  entries d := rfl
  puts := rfl
  closed := rfl
  measured := id
  released d hd := absurd hd List.not_mem_nil
  departed r := id
  journal := .refl _

/-- One more chunk is flushed before the others. -/
theorem cons (h : Flushed [c] s t) (h' : Flushed cs t u) (hc : c ∉ cs) :
    Flushed (c :: cs) s u where
  near := by
    rw [h'.near, h.near, List.filter_filter]
    apply List.filter_congr
    intro e _
    simp [Bool.and_comm]
  entries d := by
    rw [h'.entries, h.entries, h.chunk?]
    by_cases hd : d = c
    · subst hd
      simp [hc]
    · simp [hd]
  puts := by
    have hothers : cs.countP (fun d => (t.chunk? d).any (!·.isReleased))
        = cs.countP fun d => (s.chunk? d).any (!·.isReleased) := by
      apply List.countP_congr
      intro d hd
      have hne : d ∉ [c] := by
        rintro hmem
        rw [List.mem_singleton.1 hmem] at hd
        exact hc hd
      rw [h.chunk?, if_neg hne]
    rw [h'.puts, h.puts, hothers]
    simp only [List.countP_cons, List.countP_nil]
    omega
  closed := h'.closed.trans h.closed
  measured := h'.measured ∘ h.measured
  released d hd r hr := by
    rcases List.mem_cons.1 hd with rfl | hd
    · exact h'.departed _ (h.released d (List.mem_singleton_self d) r hr)
    · refine h'.released d hd r ?_
      rw [h.resident?, if_neg, hr]
      rintro hmem
      rw [List.mem_singleton.1 hmem] at hd
      exact hc hd
  departed r hr := h'.departed r (h.departed r hr)
  journal := h.journal.trans h'.journal

/-- The far tier was offered a resident chunk, which is dismissed. -/
theorem dismiss {r : Resident} (hr : s.resident? c = some r)
    (hnear : t.near = s.near) (hdeparted : t.departed = s.departed)
    (hjournal : Puts [c] s.journal t.journal)
    (hentries : ∀ d, Table.get? t.far.entries d
      = (if d = c then r.chunk.stored? else none).or
          (Table.get? s.far.entries d))
    (hputs : t.far.puts = s.far.puts + if r.chunk.isReleased then 0 else 1)
    (hclosed : t.far.closed = s.far.closed)
    (hmeasured : s.far.Measured → t.far.Measured) :
    Flushed [c] s (t.dismiss c) := by
  have hr' : t.resident? c = some r := by
    rw [StreamState.resident?_congr hnear, hr]
  have hchunk := StreamState.chunk?_of_resident? hr
  have hdismiss : (t.dismiss c).departed
      = { r with chunk := r.chunk.release } :: t.departed := by
    rw [StreamState.dismiss, hr']
  refine ⟨?_, ?_, ?_, ?_, ?_, ?_, ?_, ?_⟩
  · rw [StreamState.near_dismiss, hnear]
    simp [Table.erase]
  · intro d
    rw [StreamState.far_dismiss, hentries]
    by_cases hd : d = c
    · simp [hd, hchunk]
    · simp [hd]
  · rw [StreamState.far_dismiss, hputs, List.countP_singleton, hchunk]
    cases h : r.chunk.isReleased <;> simp [h]
  · rw [StreamState.far_dismiss, hclosed]
  · rw [StreamState.far_dismiss]
    exact hmeasured
  · intro d hd q hq
    rw [List.mem_singleton.1 hd, hr, Option.some.injEq] at hq
    rw [hdismiss, ← hq]
    exact List.mem_cons_self
  · intro q hq
    rw [hdismiss, hdeparted]
    exact List.mem_cons_of_mem _ hq
  · rw [StreamState.journal_dismiss]
    exact hjournal

theorem flushChunk (htier : setup.tier = FarStore.tier)
    (hopen : s.far.closed = false) {r : Resident} (hr : s.resident? c = some r)
    (hplaced : r.chunk.Placed c) (n : Nat) :
    Flushed [c] s (Provider.flushChunk setup (n, s) c).2 := by
  obtain ⟨js, hjs, hflush⟩ := Provider.flushChunk_of_chunk? setup
    (StreamState.chunk?_of_resident? hr) n
  rw [hplaced.coord] at hjs
  simp only [hflush, htier, FarStore.tier]
  cases hcontent : r.chunk.content with
  | none =>
    rw [FarStore.put_of_released hopen hcontent]
    refine dismiss hr rfl rfl (hjs.trans (.note _ _)) ?_ ?_ rfl id
    · intro d
      simp [StreamState.note, StreamState.record, Chunk.stored?, hcontent]
    · simp [StreamState.note, StreamState.record, Chunk.isReleased, hcontent]
  | some b =>
    obtain ⟨far, hfar, htook⟩ := FarStore.exists_took hopen hcontent
    rw [hfar]
    refine dismiss hr rfl rfl hjs ?_ ?_ ?_ ?_
    · intro d
      simp only [htook.get?_entries, hplaced.coord]
      by_cases hd : d = c
      · simp [hd, Chunk.stored?, hcontent]
      · simp [hd, Ne.symm hd]
    · simp [htook.puts, Chunk.isReleased, hcontent]
    · exact htook.closed.trans hopen.symm
    · exact fun hs => htook.measured hs
        (hplaced.content b hcontent).2.allocated

theorem foldl (htier : setup.tier = FarStore.tier)
    (hopen : s.far.closed = false)
    (hplaced : s.Placed)
    (hnodup : cs.Nodup) (hresident : ∀ c ∈ cs, s.isResident c = true)
    (n : Nat) :
    Flushed cs s (cs.foldl (Provider.flushChunk setup) (n, s)).2 := by
  induction cs generalizing s n with
  | nil => exact .nil s
  | cons c cs ih =>
    obtain ⟨hc, hnodup⟩ := List.nodup_cons.1 hnodup
    obtain ⟨r, hr⟩ :=
      Option.isSome_iff_exists.1 (hresident c List.mem_cons_self)
    have hchunk := StreamState.chunk?_of_resident? hr
    have hfirst := flushChunk htier hopen hr (hplaced c _ hchunk) n
    cases hnext : Provider.flushChunk setup (n, s) c with
    | mk m t =>
      rw [hnext] at hfirst
      have hstays {d : Coord} (hd : d ∈ cs) : d ∉ [c] := by
        intro hmem
        rw [List.mem_singleton.1 hmem] at hd
        exact hc hd
      rw [List.foldl_cons, hnext]
      refine hfirst.cons (ih (hfirst.closed.trans hopen) ?_ hnodup ?_ m) hc
      · intro d chunk hd
        rw [hfirst.chunk?] at hd
        split at hd
        · cases hd
        · exact hplaced d chunk hd
      · intro d hd
        rw [StreamState.isResident, hfirst.resident?, if_neg (hstays hd)]
        exact hresident d (List.mem_cons_of_mem c hd)

/-- A flush dismisses all resident chunks. -/
theorem flush (htier : setup.tier = FarStore.tier)
    (hopen : s.near ≠ [] → s.far.closed = false)
    (hplaced : s.Placed)
    (hnodup : (Table.keys s.near).Nodup) :
    Flushed (Table.keys s.near) s (Provider.flush setup s).2 := by
  by_cases hempty : s.near = []
  · rw [Provider.flush, hempty]
    exact .nil s
  · exact foldl htier (hopen hempty) hplaced hnodup
      (fun _ => StreamState.isResident_iff_mem_keys.2) 0

/-- Remarks before the flush make no difference. -/
theorem of_remarks (h : Flushed cs t u) (hnear : t.near = s.near)
    (hdeparted : t.departed = s.departed) (hfar : t.far = s.far)
    (hjournal : Puts [] s.journal t.journal) : Flushed cs s u where
  near := by rw [h.near, hnear]
  entries d := by rw [h.entries, StreamState.chunk?_congr hnear, hfar]
  puts := by
    rw [h.puts, hfar]
    simp only [StreamState.chunk?_congr hnear]
  closed := by rw [h.closed, hfar]
  measured := hfar ▸ h.measured
  released d hd r hr :=
    h.released d hd r ((StreamState.resident?_congr hnear d).trans hr)
  departed r hr := h.departed r (hdeparted ▸ hr)
  journal := hjournal.trans h.journal

theorem near_eq_nil (h : Flushed (Table.keys s.near) s t) : t.near = [] := by
  rw [h.near, List.filter_eq_nil_iff]
  intro e he
  have hkey : e.1 ∈ Table.keys s.near := List.mem_map_of_mem he
  simpa using hkey

/-- A chunk that had its content can be had back from the far tier. -/
theorem get_of_mem (h : Flushed cs s t) {chunk : Chunk} {b : Buffer}
    (hc : c ∈ cs) (hchunk : s.chunk? c = some chunk)
    (hcontent : chunk.content = some b) (hb : b.Storable) :
    t.far.get c = .ok (some (Chunk.ofBuffer b chunk.completion)) := by
  apply FarStore.get_of_entry hb
  rw [h.entries, if_pos hc, hchunk]
  simp [Chunk.stored?, hcontent]

/-- What was not put is stored as before. -/
theorem get_of_absent (h : Flushed cs s t)
    (hc : c ∈ cs → ∀ chunk, s.chunk? c = some chunk → chunk.content = none) :
    t.far.get c = s.far.get c := by
  apply FarStore.get_congr
  rw [h.entries]
  by_cases hmem : c ∈ cs
  · cases hchunk : s.chunk? c with
    | none => simp
    | some chunk => simp [hmem, Chunk.stored?, hc hmem chunk hchunk]
  · simp [hmem]

/-- A flush conserves every copy. -/
theorem copy?_eq (h : Flushed (Table.keys s.near) s t) (hs : s.Sound)
    (c : Coord) : t.far.copy? c = s.copy? c := by
  cases hchunk : s.chunk? c with
  | none =>
    have hget : t.far.get c = s.far.get c := by
      refine h.get_of_absent fun _ chunk hsome => ?_
      rw [hchunk] at hsome
      cases hsome
    rw [StreamState.copy?_of_absent hchunk, FarStore.copy?, FarStore.copy?,
      hget]
  | some chunk =>
    have hintact := hs.intact c chunk hchunk
    obtain ⟨b, hb⟩ := hintact.unreleased
    have hmem := StreamState.mem_keys_of_chunk? hchunk
    rw [StreamState.copy?_of_chunk? hchunk, FarStore.copy?_of_get
      (h.get_of_mem hmem hchunk hb (hintact.content b hb).2), Chunk.copy,
      Chunk.copy, hb]
    rfl

theorem filed (h : Flushed cs s t) (hs : s.Sound) : t.far.Filed := by
  intro c stored hstored
  rw [h.entries] at hstored
  cases hput : (if c ∈ cs then s.chunk? c else none).bind Chunk.stored? with
  | none =>
    rw [hput, Option.none_or] at hstored
    exact hs.filed c stored hstored
  | some made =>
    rw [hput, Option.some_or, Option.some.injEq] at hstored
    obtain ⟨chunk, hchunk, hmade⟩ := Option.bind_eq_some_iff.1 hput
    split at hchunk
    · obtain ⟨b, hb, rfl⟩ := Option.map_eq_some_iff.1 hmade
      obtain ⟨hcoord, hstorable⟩ := (hs.intact c chunk hchunk).content b hb
      exact ⟨b, hcoord, hstorable, by rw [← hstored]⟩
    · cases hchunk

end Flushed

/-! ## The end of a provider -/

namespace Provider

/-- A shutdown gives claims back and makes remarks. -/
theorem shutdown_frame {σ : Type} (setup : Setup σ) (p : Provider σ) :
    let s := (p.pipeline.shutdown (Production.handler setup)).state
    s = { p.state with preparing := s.preparing, journal := s.journal }
      ∧ Puts [] p.state.journal s.journal := by
  have hdiscard (ts : List Task) (s : StreamState σ) : ∃ claims,
      ts.foldl (fun s t => (Production.handler setup).discard t s) s
        = { s with preparing := claims } := by
    induction ts generalizing s with
    | nil => exact ⟨s.preparing, rfl⟩
    | cons t ts ih =>
      obtain ⟨claims, hclaims⟩ := ih (Production.discard t s)
      refine ⟨claims, hclaims.trans ?_⟩
      unfold Production.discard
      split <;> rfl
  unfold Pipeline.shutdown
  split
  · exact ⟨rfl, .refl _⟩
  · obtain ⟨claims, hclaims⟩ := hdiscard p.pipeline.queue.close.1
      (if p.pipeline.queue.close.1.isEmpty then p.pipeline.state
        else (Production.handler setup).notify
          (.discarding p.pipeline.queue.close.1.length) p.pipeline.state)
    simp only [hclaims]
    split
    · exact ⟨rfl, .note _ _⟩
    · exact ⟨rfl, (Puts.note _ _).trans (.note _ _)⟩

theorem dispose_of_disposed {σ : Type} {p : Provider σ}
    (h : p.disposed = true) (setup : Setup σ) : p.dispose setup = p :=
  if_pos h

/-- The end of a provider flushes the near cache, forgets all claims, closes the
far tier and saves it, unless something is in the way. -/
theorem dispose_spec {p : Provider FarStore}
    (htier : setup.tier = FarStore.tier) (hdisposed : p.disposed = false)
    (hopen : p.state.near ≠ [] → p.state.far.closed = false)
    (hplaced : p.state.Placed)
    (hnodup : (Table.keys p.state.near).Nodup) :
    ∃ t js, Flushed (Table.keys p.state.near) p.state t
      ∧ Puts [] t.journal js
      ∧ (p.dispose setup).state
        = { t with preparing := [], far := t.far.close, journal := js }
      ∧ (p.dispose setup).disposed = true
      ∧ (p.dispose setup).saved
        = (if setup.obstacle = none then some t.far.close.save else p.saved)
      ∧ (p.dispose setup).pipeline.stopped
        = (p.pipeline.shutdown (Production.handler setup)).stopped := by
  obtain ⟨hframe, hjournal⟩ := shutdown_frame setup p
  have hnear := congrArg StreamState.near hframe
  have hdeparted := congrArg StreamState.departed hframe
  have hfar := congrArg StreamState.far hframe
  have hflush : Flushed (Table.keys p.state.near) p.state
      (flush setup
        (p.pipeline.shutdown (Production.handler setup)).state).2 := by
    rw [← hnear] at hopen hnodup ⊢
    rw [← hfar] at hopen
    exact (Flushed.flush htier hopen (hplaced.of_near hnear) hnodup).of_remarks
      hnear hdeparted hfar hjournal
  cases hresult : flush setup
      (p.pipeline.shutdown (Production.handler setup)).state with
  | mk n t =>
    rw [hresult] at hflush
    simp only [dispose, hdisposed, Bool.false_eq_true, if_false, hresult, htier,
      FarStore.tier]
    cases setup.obstacle with
    | some cause => exact ⟨t, _, hflush, .note _ _, rfl, rfl, rfl, rfl⟩
    | none =>
      exact ⟨t, _, hflush, (Puts.note _ _).trans (.note _ _), rfl, rfl, rfl,
        rfl⟩

end Provider

/-! ## A stored world

Facts about single runs are shown in a world with a far store and small chunks
of air, complete at once. -/

def Setup.stored (budget : Nat) : Setup FarStore :=
  ⟨FarStore.tier, (Script.mk [] .complete none).generator, budget, "stored",
    none⟩

/-- The provider of a stored world before anything has happened. -/
def Provider.stored (budget : Nat) : Provider FarStore where
  pipeline :=
    { state := ((StreamState.start .empty).note (.pipeline (.started 1))).note
        (.opened "stored" budget 1)
      queue := .empty
      workers := 1
      cancelled := false
      stopped := false
      completed := 0
      failed := 0 }
  disposed := false
  saved := none

theorem start_stored (budget : Nat) :
    Provider.start (Setup.stored budget) "stored" 1 .empty
      = .ok (.stored budget) :=
  rfl

end ChunkStream
