import ChunkStream.Proofs.Box.Walk

/-!
# Enumerating a box

A cursor hands out the coordinates of a box one by one, and every sum it forms
is checked.  The sums are those of `Box.next`, each of them guarded by a
comparison, so none of them overflows, whatever the corners are; and a step goes
up in the order by y, then z, then x.  Since a walk of the box ends at the last
rank, the cursor hands out the list of the box and then nothing any more.
-/

namespace ChunkStream

/-- The order of a walk: by y, then z, then x. -/
def Coord.Precedes (c d : Coord) : Prop :=
  c.y < d.y ∨ c.y = d.y ∧ (c.z < d.z ∨ c.z = d.z ∧ c.x < d.x)

instance : DecidableRel Coord.Precedes := fun c d =>
  inferInstanceAs (Decidable (c.y < d.y ∨ _))

theorem Coord.Precedes.trans {c d e : Coord} (h : c.Precedes d)
    (h' : d.Precedes e) : c.Precedes e := by
  simp only [Precedes, Int32.lt_iff_toInt_lt, ← Int32.toInt_inj] at h h' ⊢
  omega

instance : IsTrans Coord Coord.Precedes := ⟨fun _ _ _ => .trans⟩

/-- What is below another word can be counted up by one. -/
theorem Word.add_one_eq {a b : Int32} (h : a < b) :
    Word.add a 1 = .ok (a + 1) := by
  rw [Word.add, exactly_eq_ok_iff, toInt_succ h]
  rfl

theorem Word.lt_add_one {a b : Int32} (h : a < b) : a < a + 1 := by
  rw [Int32.lt_iff_toInt_lt, toInt_succ h]
  exact Int.lt_succ a.toInt

/-- A walk of a box under way, with the coordinate that is handed out next. -/
structure Cursor where
  box : Box
  next : Option Coord
deriving DecidableEq, Repr

namespace Box

variable {b : Box} {c d : Coord}

/-- The coordinate after `c` in a walk of the box, with its sums checked. -/
def checkedNext (b : Box) (c : Coord) : Except Fault (Option Coord) :=
  if c.x < b.max.x then do
    let x ← Word.add c.x 1
    return some ⟨x, c.y, c.z⟩
  else if c.z < b.max.z then do
    let z ← Word.add c.z 1
    return some ⟨b.min.x, c.y, z⟩
  else if c.y < b.max.y then do
    let y ← Word.add c.y 1
    return some ⟨b.min.x, y, b.min.z⟩
  else return none

/-- The cursor before a walk of the box. -/
def cursor (b : Box) : Cursor := ⟨b, b.first⟩

/-- No sum overflows: each is formed below the greatest word of its axis. -/
theorem checkedNext_eq (b : Box) (c : Coord) :
    b.checkedNext c = .ok (b.next c) := by
  unfold checkedNext next
  split
  · next hx =>
    rw [Word.add_one_eq hx]
    rfl
  split
  · next hz =>
    rw [Word.add_one_eq hz]
    rfl
  split
  · next hy =>
    rw [Word.add_one_eq hy]
    rfl
  · rfl

theorem precedes_of_next (h : b.next c = some d) : c.Precedes d := by
  unfold next at h
  split at h
  · next hx =>
    cases h
    exact .inr ⟨rfl, .inr ⟨rfl, Word.lt_add_one hx⟩⟩
  split at h
  · next hz =>
    cases h
    exact .inr ⟨rfl, .inl (Word.lt_add_one hz)⟩
  split at h
  · next hy =>
    cases h
    exact .inl (Word.lt_add_one hy)
  · cases h

end Box

namespace Cursor

/-- Hands out a coordinate, if there is one left. -/
def advance (k : Cursor) : Except Fault (Option Coord × Cursor) :=
  match k.next with
  | none => .ok (none, k)
  | some c => do
      let next ← k.box.checkedNext c
      return (some c, { k with next := next })

/-- The cursor hands out these coordinates and no more: it comes to an end, and
without a fault. -/
inductive Yields : Cursor → List Coord → Prop
  | done {k : Cursor} (h : k.advance = .ok (none, k)) : Yields k []
  | more {k rest : Cursor} {c : Coord} {cs : List Coord}
      (h : k.advance = .ok (some c, rest)) (hrest : Yields rest cs) :
      Yields k (c :: cs)

theorem advance_some (b : Box) (c : Coord) :
    advance ⟨b, some c⟩ = .ok (some c, ⟨b, b.next c⟩) := by
  show b.checkedNext c >>= (fun next => pure (some c, Cursor.mk b next)) = _
  rw [Box.checkedNext_eq]
  rfl

end Cursor

namespace Box

variable {b : Box} {c : Coord} {n : Nat}

/-- From a coordinate of the box on, a walk of all ranks that are left is what
the cursor hands out. -/
theorem yields_walk (h : b.contains c = true) (hn : b.rank c + n = b.count) :
    Cursor.Yields ⟨b, some c⟩ (b.walk n (some c)).1 := by
  induction n generalizing c with
  | zero => exact absurd hn (Nat.ne_of_lt (rank_lt_count h))
  | succ n ih =>
    refine .more (Cursor.advance_some b c) ?_
    have hstep := next_spec h
    cases hnext : b.next c with
    | none =>
      rw [hnext] at hstep
      obtain rfl : n = 0 := by
        simp only at hstep
        omega
      exact .done rfl
    | some d =>
      rw [hnext] at hstep
      exact ih hstep.1 (by omega)

theorem isChain_walk (n : Nat) (c : Coord) :
    (b.walk n (some c)).1.IsChain Coord.Precedes := by
  induction n generalizing c with
  | zero => exact .nil
  | succ n ih =>
    show (c :: (b.walk n (b.next c)).1).IsChain Coord.Precedes
    cases hnext : b.next c with
    | none => cases n <;> exact .singleton c
    | some d =>
      cases n with
      | zero => exact .singleton c
      | succ n => exact .cons_cons (precedes_of_next hnext) (ih d)

theorem contains_min (h : b.isEmpty = false) : b.contains b.min = true := by
  rw [← Bool.not_eq_true, isEmpty_iff] at h
  rw [contains_iff]
  omega

theorem yields_toList (b : Box) : b.cursor.Yields b.toList := by
  rw [cursor, toList, first]
  cases hempty : b.isEmpty with
  | true =>
    rw [count_eq_zero_of_isEmpty hempty]
    exact .done rfl
  | false =>
    have hrank : b.rank b.min = 0 := by simp [rank]
    exact yields_walk (contains_min hempty) (by rw [hrank, Nat.zero_add])

/-- The list of a box is in strictly increasing order. -/
theorem pairwise_toList (b : Box) : b.toList.Pairwise Coord.Precedes := by
  rw [← List.isChain_iff_pairwise, toList, first]
  split
  · cases b.count <;> exact .nil
  · exact isChain_walk _ _

theorem isEmpty_iff_toList_eq_nil : b.isEmpty = true ↔ b.toList = [] := by
  constructor
  · intro h
    rw [← List.length_eq_zero_iff, length_toList, count_eq_zero_of_isEmpty h]
  · intro h
    by_contra hempty
    rw [Bool.not_eq_true] at hempty
    have hmem := mem_toList_iff.2 (contains_min hempty)
    rw [h] at hmem
    cases hmem

/-- The number of coordinates is a size, or no size can be told: two spans that
are too many already are no less with the third, which is not zero. -/
theorem size_eq (b : Box) :
    b.size = if b.count < Size.limit then .ok b.count
      else .error .mulOverflow := by
  unfold size
  cases hempty : b.isEmpty with
  | true =>
    rw [count_eq_zero_of_isEmpty hempty]
    rfl
  | false =>
    have hz : 0 < span b.min.z b.max.z := by
      have hmin := (contains_iff.1 (contains_min hempty)).2.2
      simp only [span]
      omega
    have harea : span b.min.x b.max.x * span b.min.y b.max.y ≤ b.count :=
      Nat.le_mul_of_pos_right _ hz
    show (Size.mul _ _ >>= fun area => Size.mul area _) = _
    unfold Size.mul
    by_cases hfits : span b.min.x b.max.x * span b.min.y b.max.y < Size.limit
    · rw [if_pos hfits]
      rfl
    · rw [if_neg hfits, if_neg (by omega)]
      rfl

/-- Walking a box enumerates it, whatever its corners are.  The cursor comes to
an end without a fault, and has then handed out the coordinates that the box
contains, each once and in increasing order.  Their number is the product of the
three spans; it is the size of the box when it is below the limit of sizes, and
otherwise asking for the size faults.  An empty box is one of which nothing is
handed out. -/
theorem enumerated_exactly (b : Box) :
    b.cursor.Yields b.toList
      ∧ (∀ c, c ∈ b.toList ↔ b.contains c = true)
      ∧ b.toList.Nodup
      ∧ b.toList.Pairwise Coord.Precedes
      ∧ b.toList.length = span b.min.x b.max.x * span b.min.y b.max.y
          * span b.min.z b.max.z
      ∧ b.size = (if b.toList.length < Size.limit then .ok b.toList.length
          else .error .mulOverflow)
      ∧ (b.isEmpty = true ↔ b.toList = []) := by
  refine ⟨b.yields_toList, fun c => mem_toList_iff, nodup_toList,
    b.pairwise_toList, length_toList, ?_, isEmpty_iff_toList_eq_nil⟩
  rw [length_toList]
  exact b.size_eq

/-- Two axes in full length are one coordinate too many for a size. -/
example :
    (Box.mk ⟨-2147483648, -2147483648, 0⟩ ⟨2147483647, 2147483647, 0⟩).size
      = .error .mulOverflow := by
  decide

end Box

end ChunkStream
