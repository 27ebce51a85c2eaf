import ChunkStream.Proofs.Store.FarStore
import ChunkStream.Store.History
import Mathlib.Data.List.Dedup

/-!
# A store answers for its history

What a store answers is determined by the chunks that it took: under each
coordinate lies the last of them, and a read gives that one back as a fresh
chunk.  The entries are kept as payloads, so the invariant says of each entry
which chunk it was made of; the answers then follow from reading a payload back.
-/

namespace ChunkStream

namespace FarStore

variable {s t : FarStore} {acts : List StoreAct}

/-! ## Single acts -/

/-- An act changes the store only by closing it or by a write that is taken. -/
theorem act_cases (a : StoreAct) (s : FarStore) :
    (a ≠ .close ∧ (s.act a).1.taken? = none ∧ (s.act a).2 = s)
      ∨ (a = .close ∧ (s.act a).1.taken? = none ∧ (s.act a).2 = s.close)
      ∨ ∃ chunk b, a = .put chunk ∧ (s.act a).1.taken? = some chunk
        ∧ Took chunk b s (s.act a).2 := by
  cases a with
  | put chunk =>
    cases hput : s.put chunk with
    | error why =>
      left
      simp [act, hput, StoreReply.taken?]
    | ok next =>
      obtain ⟨b, htook⟩ := took_of_put hput
      right; right
      exact ⟨chunk, b, by simp [act, hput, StoreReply.taken?, htook]⟩
  | close => exact .inr (.inl ⟨rfl, rfl, rfl⟩)
  | _ => exact .inl ⟨by simp, rfl, rfl⟩

theorem run_concat (acts : List StoreAct) (a : StoreAct) (s : FarStore) :
    s.run (acts ++ [a])
      = ((s.run acts).1 ++ [((s.run acts).2.act a).1],
        ((s.run acts).2.act a).2) :=
  List.foldl_concat _ _ _ _

theorem run_append (acts more : List StoreAct) (s : FarStore) :
    (s.run (acts ++ more)).2 = ((s.run acts).2.run more).2 := by
  induction more using List.reverseRecOn with
  | nil => rw [List.append_nil]; rfl
  | append_singleton more a ih =>
    rw [← List.append_assoc, run_concat, run_concat, ih]

theorem taken_concat (acts : List StoreAct) (a : StoreAct) (s : FarStore) :
    s.taken (acts ++ [a])
      = s.taken acts ++ ((s.run acts).2.act a).1.taken?.toList := by
  rw [taken, run_concat, List.filterMap_append, taken]
  cases htaken : ((s.run acts).2.act a).1.taken? with
  | none => rw [List.filterMap_cons_none htaken, List.filterMap_nil]; rfl
  | some chunk => rw [List.filterMap_cons_some htaken, List.filterMap_nil]; rfl

/-! ## Closing -/

theorem closed_run : (s.run acts).2.closed = true
    ↔ s.closed = true ∨ .close ∈ acts := by
  induction acts using List.reverseRecOn with
  | nil => simp [run]
  | append_singleton acts a ih =>
    rw [run_concat]
    rcases act_cases a (s.run acts).2 with
      ⟨hother, -, hs⟩ | ⟨rfl, -, hs⟩ | ⟨chunk, b, rfl, -, htook⟩
    · simp [hs, ih, hother.symm]
    · simp [hs, close]
    · have hopen := htook.opened
      have hnever : ¬(s.closed = true ∨ .close ∈ acts) := by
        rw [← ih, hopen]
        exact Bool.false_ne_true
      simpa [htook.closed] using hnever

/-- What closing keeps, and a write that is taken, a history keeps. -/
theorem run_preserve {P : FarStore → Prop} (hs : P s)
    (hclose : ∀ t, P t → P t.close)
    (htook : ∀ chunk b t u, .put chunk ∈ acts → P t → Took chunk b t u → P u) :
    P (s.run acts).2 := by
  induction acts using List.reverseRecOn with
  | nil => exact hs
  | append_singleton acts a ih =>
    have hbefore := ih fun chunk b t u hput =>
      htook chunk b t u (List.mem_append_left [a] hput)
    rw [run_concat]
    rcases act_cases a (s.run acts).2 with
      ⟨-, -, h⟩ | ⟨-, -, h⟩ | ⟨chunk, b, rfl, -, hlast⟩
    · rw [h]
      exact hbefore
    · rw [h]
      exact hclose _ hbefore
    · exact htook chunk b _ _ (List.mem_append_right acts List.mem_cons_self)
        hbefore hlast

/-- Nothing happens to a closed store any more. -/
theorem run_of_closed (hs : s.closed = true) : (s.run acts).2 = s := by
  refine run_preserve (P := fun t => t = s) rfl ?_ ?_
  · rintro t rfl
    obtain ⟨entries, bytes, puts, closed⟩ := t
    obtain rfl : closed = true := hs
    rfl
  · rintro chunk b t u - rfl htook
    have hopen := htook.opened
    rw [hs] at hopen
    cases hopen

/-- Once it has been closed, a store stays as it was then. -/
theorem run_of_close (acts more : List StoreAct) (s : FarStore) :
    (s.run (acts ++ .close :: more)).2 = (s.run acts).2.close := by
  have hclosed : (s.run acts).2.close.closed = true := rfl
  have hclose : (s.run (acts ++ [.close])).2 = (s.run acts).2.close := by
    rw [run_concat]
    rfl
  rw [List.append_cons, run_append, hclose, run_of_closed hclosed]

/-! ## The ledger -/

/-- Every entry was made of the last chunk that was taken at its coordinate. -/
structure Ledger (chunks : List Chunk) (s : FarStore) : Prop where
  entry : ∀ c, Table.get? s.entries c
    = (Table.latest? Chunk.coord chunks c).bind Chunk.stored?
  keys : (Table.keys s.entries).Nodup
  puts : s.puts = chunks.length
  content : ∀ chunk ∈ chunks, ∃ b, chunk.content = some b ∧ b.Storable

variable {chunks : List Chunk}

theorem ledger_empty : Ledger [] empty where
  entry _ := rfl
  keys := List.nodup_nil
  puts := rfl
  content _ h := absurd h List.not_mem_nil

theorem Ledger.took {chunk : Chunk} {b : Buffer} (h : Ledger chunks s)
    (htook : Took chunk b s t) (hb : b.Storable) :
    Ledger (chunks ++ [chunk]) t where
  entry c := by
    rw [htook.get?_entries, Table.latest?_concat, h.entry]
    by_cases hc : chunk.coord = c
    · rw [if_pos hc, if_pos hc, Option.bind_some, Chunk.stored?,
        htook.content, Option.map_some]
    · rw [if_neg hc, if_neg hc]
  keys := by
    rw [htook.entries]
    exact Table.nodup_keys_insert h.keys _ _
  puts := by
    rw [htook.puts, h.puts, List.length_append, List.length_singleton]
  content other hother := by
    rcases List.mem_append.1 hother with hother | hother
    · exact h.content other hother
    · obtain rfl := List.mem_singleton.1 hother
      exact ⟨b, htook.content, hb⟩

theorem Ledger.act (h : Ledger chunks s) {a : StoreAct}
    (ha : ∀ b, a.content? = some b → b.Storable) :
    Ledger (chunks ++ (s.act a).1.taken?.toList) (s.act a).2 := by
  rcases act_cases a s with
    ⟨-, htaken, hs⟩ | ⟨-, htaken, hs⟩ | ⟨chunk, b, rfl, htaken, htook⟩
  · rw [htaken, hs, Option.toList_none, List.append_nil]
    exact h
  · rw [htaken, hs, Option.toList_none, List.append_nil]
    exact ⟨h.entry, h.keys, h.puts, h.content⟩
  · rw [htaken]
    exact h.took htook (ha b htook.content)

theorem ledger_run
    (hacts : ∀ a ∈ acts, ∀ b, a.content? = some b → b.Storable) :
    Ledger (empty.taken acts) (empty.run acts).2 := by
  induction acts using List.reverseRecOn with
  | nil => exact ledger_empty
  | append_singleton acts a ih =>
    rw [taken_concat, run_concat]
    refine (ih fun a' ha' => hacts a' (List.mem_append_left [a] ha')).act ?_
    exact hacts a (List.mem_append_right acts List.mem_cons_self)

/-! ## What the store answers -/

/-- A store answers as a map with the last of some chunks under each
coordinate. -/
structure Answers (chunks : List Chunk) (s : FarStore) : Prop where
  get_none : ∀ c, Table.latest? Chunk.coord chunks c = none →
    s.get c = .ok none
  get_some : ∀ c chunk, Table.latest? Chunk.coord chunks c = some chunk →
    ∃ b, chunk.content = some b
      ∧ s.get c = .ok (some (Chunk.ofBuffer b chunk.completion))
  contains : ∀ c, s.contains c = (Table.latest? Chunk.coord chunks c).isSome
  coords : s.coords.Perm (chunks.map Chunk.coord).dedup
  count : s.count = (chunks.map Chunk.coord).dedup.length
  puts : s.puts = chunks.length

namespace Ledger

theorem get?_of_latest? (h : Ledger chunks s) {c : Coord} {chunk : Chunk}
    (hlatest : Table.latest? Chunk.coord chunks c = some chunk) :
    ∃ b, chunk.content = some b ∧ b.Storable ∧ Table.get? s.entries c
      = some ⟨chunk.completion, Payload.encode b⟩ := by
  obtain ⟨hmem, -⟩ := Table.mem_of_latest?_eq_some hlatest
  obtain ⟨b, hcontent, hb⟩ := h.content chunk hmem
  refine ⟨b, hcontent, hb, ?_⟩
  rw [h.entry, hlatest, Option.bind_some, Chunk.stored?, hcontent,
    Option.map_some]

theorem contains_eq (h : Ledger chunks s) (c : Coord) :
    s.contains c = (Table.latest? Chunk.coord chunks c).isSome := by
  rw [FarStore.contains, Table.contains]
  cases hlatest : Table.latest? Chunk.coord chunks c with
  | none => rw [h.entry, hlatest]; rfl
  | some chunk =>
    obtain ⟨b, -, -, hentry⟩ := h.get?_of_latest? hlatest
    rw [hentry]
    rfl

theorem perm_coords (h : Ledger chunks s) :
    s.coords.Perm (chunks.map Chunk.coord).dedup := by
  refine (List.perm_ext_iff_of_nodup h.keys (List.nodup_dedup _)).2 ?_
  intro c
  have hcontains := h.contains_eq c
  rw [FarStore.contains, Table.contains] at hcontains
  rw [List.mem_dedup, ← Table.isSome_latest?_iff, ← hcontains]
  exact Table.mem_keys_iff

theorem answers (h : Ledger chunks s) : Answers chunks s where
  get_none c hlatest := by
    apply get_eq_none
    rw [h.contains_eq, hlatest, Option.isSome_none]
  get_some c chunk hlatest := by
    obtain ⟨b, hcontent, hb, hentry⟩ := h.get?_of_latest? hlatest
    exact ⟨b, hcontent, get_of_entry hb hentry⟩
  contains := h.contains_eq
  coords := h.perm_coords
  count := by
    rw [← h.perm_coords.length_eq, FarStore.coords, Table.keys,
      List.length_map, FarStore.count]
  puts := h.puts

end Ledger

/-- Closing changes no answer. -/
theorem Answers.close (h : Answers chunks s) : Answers chunks s.close where
  get_none := h.get_none
  get_some := h.get_some
  contains := h.contains
  coords := h.coords
  count := h.count
  puts := h.puts

theorem act_of_error {chunk : Chunk} {why : StoreError}
    (h : s.put chunk = .error why) :
    s.act (.put chunk) = (.refused chunk why, s) := by
  simp only [act, h]

/-- A read of a chunk that is in its place gives a chunk of the coordinate that
was asked for. -/
theorem Answers.coord_of_get (h : Answers chunks s)
    (hplaced : ∀ chunk ∈ chunks, ∀ b, chunk.content = some b →
      b.coord = chunk.coord) {c : Coord} {found : Chunk}
    (hget : s.get c = .ok (some found)) : found.coord = c := by
  cases hlatest : Table.latest? Chunk.coord chunks c with
  | none =>
    rw [h.get_none c hlatest] at hget
    cases hget
  | some chunk =>
    obtain ⟨hmem, hc⟩ := Table.mem_of_latest?_eq_some hlatest
    obtain ⟨b, hcontent, hfound⟩ := h.get_some c chunk hlatest
    rw [hfound] at hget
    cases hget
    exact (hplaced chunk hmem b hcontent).trans hc

/-- From empty on a store is the map of what it took.  It takes every chunk that
has content until it is closed; a chunk that it refuses changes nothing, and
closing changes no answer to a read. -/
theorem answers_of_history
    (hacts : ∀ a ∈ acts, ∀ b, a.content? = some b → b.Storable) :
    Answers (empty.taken acts) (empty.run acts).2
      ∧ ((∀ chunk ∈ empty.taken acts, ∀ b, chunk.content = some b →
          b.coord = chunk.coord) →
        ∀ c found, (empty.run acts).2.get c = .ok (some found) →
          found.coord = c)
      ∧ (∀ chunk,
        (.close ∈ acts → (empty.run acts).2.put chunk = .error .closed)
        ∧ (.close ∉ acts → chunk.content = none →
          (empty.run acts).2.put chunk = .error (.released chunk.coord))
        ∧ (.close ∉ acts → ∀ b, chunk.content = some b →
          ∃ t, (empty.run acts).2.put chunk = .ok t)
        ∧ ∀ why, (empty.run acts).2.put chunk = .error why →
          (empty.run acts).2.act (.put chunk)
            = (.refused chunk why, (empty.run acts).2))
      ∧ ∀ more, Answers (empty.taken acts)
          (empty.run (acts ++ .close :: more)).2 := by
  have hanswers := (ledger_run hacts).answers
  have hclosed : (empty.run acts).2.closed = true ↔ .close ∈ acts := by
    rw [closed_run]
    simp [empty]
  have hopen (h : .close ∉ acts) : (empty.run acts).2.closed = false := by
    rw [← Bool.not_eq_true, hclosed]
    exact h
  refine ⟨hanswers, fun hplaced c found => hanswers.coord_of_get hplaced,
    fun chunk => ⟨?_, ?_, ?_, ?_⟩, fun more => ?_⟩
  · intro h
    exact put_of_closed (hclosed.2 h)
  · intro h hcontent
    exact put_of_released (hopen h) hcontent
  · intro h b hcontent
    obtain ⟨t, ht, -⟩ := exists_took (hopen h) hcontent
    exact ⟨t, ht⟩
  · intro why h
    exact act_of_error h
  · rw [run_of_close]
    exact hanswers.close

/-- Two chunks of one block are stored at the origin, one after the other, and
the closed store is offered the first one again. -/
def replacement : List StoreAct :=
  [.put (.ofBuffer ⟨.origin, .cube 1, #[.stone]⟩ .incomplete),
    .put (.ofBuffer ⟨.origin, .cube 1, #[.dirt]⟩ .complete), .close,
    .put (.ofBuffer ⟨.origin, .cube 1, #[.stone]⟩ .incomplete)]

theorem storable_of_replacement : ∀ a ∈ replacement, ∀ b,
    a.content? = some b → b.Storable := by
  have hblock (block : Block) :
      Buffer.Storable ⟨.origin, .cube 1, #[block]⟩ := by
    have hdim : 1 < Size.limit := by decide
    have hplain : 44 + 4 * 1 < Bytes.capacity 4 := by decide
    refine ⟨hdim, hdim, hdim, ?_⟩
    rw [Payload.length_encodePlain]
    exact hplain
  intro a ha b hb
  simp only [replacement, List.mem_cons, List.not_mem_nil, or_false] at ha
  rcases ha with rfl | rfl | rfl | rfl <;> cases hb <;> exact hblock _

/-- The second chunk is had back, and the first one is refused. -/
theorem answers_of_history_of_replacement :
    (empty.run replacement).2.get .origin
        = .ok (some (.ofBuffer ⟨.origin, .cube 1, #[.dirt]⟩ .complete))
      ∧ (empty.run replacement).2.count = 1
      ∧ (empty.run replacement).2.puts = 2
      ∧ (empty.run replacement).2.put
          (.ofBuffer ⟨.origin, .cube 1, #[.stone]⟩ .incomplete)
        = .error .closed := by
  obtain ⟨hanswers, -, hputs, -⟩ := answers_of_history storable_of_replacement
  obtain ⟨b, hcontent, hget⟩ := hanswers.get_some .origin
    (.ofBuffer ⟨.origin, .cube 1, #[.dirt]⟩ .complete) (by rfl)
  cases hcontent
  refine ⟨hget, hanswers.count.trans ?_, hanswers.puts.trans ?_,
    (hputs _).1 ?_⟩
  · rfl
  · rfl
  · simp [replacement]

end FarStore

end ChunkStream
