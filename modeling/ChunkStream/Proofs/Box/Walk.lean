import ChunkStream.Box
import Mathlib.Data.List.Range

/-!
# The walk of a box

A walk visits the coordinates of a box one after the other.  Each coordinate of
the box has a rank, a number in the mixed radix of the three spans, and a step
of the walk is a step of the rank.  So the walk that starts at the lowest
corner lists the box: every coordinate it contains, and no other.
-/

namespace ChunkStream

theorem Word.toInt_succ {a b : Int32} (h : a < b) :
    (a + 1).toInt = a.toInt + 1 := by
  have hlt := Int32.lt_iff_toInt_lt.1 h
  have hmin := Int32.le_toInt a
  have hmax := Int32.toInt_lt b
  rw [Int32.toInt_add]
  exact Int.bmod_eq_of_le (by simp; omega) (by simp; omega)

namespace Box

variable {b : Box} {c d : Coord}

theorem contains_iff :
    b.contains c = true ↔
      (b.min.x.toInt ≤ c.x.toInt ∧ c.x.toInt ≤ b.max.x.toInt)
        ∧ (b.min.y.toInt ≤ c.y.toInt ∧ c.y.toInt ≤ b.max.y.toInt)
        ∧ (b.min.z.toInt ≤ c.z.toInt ∧ c.z.toInt ≤ b.max.z.toInt) := by
  simp only [contains, Bool.and_eq_true, decide_eq_true_eq,
    Int32.le_iff_toInt_le]
  tauto

theorem isEmpty_iff :
    b.isEmpty = true ↔
      b.max.x.toInt < b.min.x.toInt ∨ b.max.y.toInt < b.min.y.toInt
        ∨ b.max.z.toInt < b.min.z.toInt := by
  simp only [isEmpty, Bool.or_eq_true, decide_eq_true_eq, GT.gt,
    Int32.lt_iff_toInt_lt]
  tauto

theorem not_isEmpty_of_contains (h : b.contains c = true) :
    b.isEmpty = false := by
  rw [contains_iff] at h
  rw [← Bool.not_eq_true, isEmpty_iff]
  omega

/-! ## Ranks -/

/-- The place of a coordinate in the walk of the box, x fastest, then z, then
y. -/
def rank (b : Box) (c : Coord) : Nat :=
  ((c.y.toInt - b.min.y.toInt).toNat * span b.min.z b.max.z
      + (c.z.toInt - b.min.z.toInt).toNat) * span b.min.x b.max.x
    + (c.x.toInt - b.min.x.toInt).toNat

theorem rank_lt_count (h : b.contains c = true) : b.rank c < b.count := by
  rw [contains_iff] at h
  obtain ⟨hx, hy, hz⟩ := h
  have hx' : (c.x.toInt - b.min.x.toInt).toNat < span b.min.x b.max.x := by
    simp only [span]; omega
  have hy' : (c.y.toInt - b.min.y.toInt).toNat < span b.min.y b.max.y := by
    simp only [span]; omega
  have hz' : (c.z.toInt - b.min.z.toInt).toNat < span b.min.z b.max.z := by
    simp only [span]; omega
  simp only [rank, count]
  calc
    _ < ((c.y.toInt - b.min.y.toInt).toNat * span b.min.z b.max.z
          + (c.z.toInt - b.min.z.toInt).toNat + 1) * span b.min.x b.max.x := by
      rw [Nat.add_mul _ 1, Nat.one_mul]
      omega
    _ ≤ (((c.y.toInt - b.min.y.toInt).toNat + 1) * span b.min.z b.max.z)
          * span b.min.x b.max.x := by
      apply Nat.mul_le_mul_right _
      rw [Nat.add_mul _ 1, Nat.one_mul]
      omega
    _ ≤ (span b.min.y b.max.y * span b.min.z b.max.z) * span b.min.x b.max.x :=
      Nat.mul_le_mul_right _ (Nat.mul_le_mul_right _ hy')
    _ = span b.min.x b.max.x * span b.min.y b.max.y * span b.min.z b.max.z := by
      rw [Nat.mul_comm, Nat.mul_assoc]

/-- No two coordinates of the box share their rank. -/
theorem rank_injective (hc : b.contains c = true) (hd : b.contains d = true)
    (h : b.rank c = b.rank d) : c = d := by
  rw [contains_iff] at hc hd
  obtain ⟨hcx, hcy, hcz⟩ := hc
  obtain ⟨hdx, hdy, hdz⟩ := hd
  have hx : 0 < span b.min.x b.max.x := by simp only [span]; omega
  have hz : 0 < span b.min.z b.max.z := by simp only [span]; omega
  have hcx' : (c.x.toInt - b.min.x.toInt).toNat < span b.min.x b.max.x := by
    simp only [span]; omega
  have hdx' : (d.x.toInt - b.min.x.toInt).toNat < span b.min.x b.max.x := by
    simp only [span]; omega
  have hcz' : (c.z.toInt - b.min.z.toInt).toNat < span b.min.z b.max.z := by
    simp only [span]; omega
  have hdz' : (d.z.toInt - b.min.z.toInt).toNat < span b.min.z b.max.z := by
    simp only [span]; omega
  simp only [rank] at h
  have hrow := congrArg (· / span b.min.x b.max.x) h
  have hplace := congrArg (· % span b.min.x b.max.x) h
  simp only [Nat.mul_comm _ (span b.min.x b.max.x), Nat.mul_add_div hx,
    Nat.mul_add_mod,
    Nat.div_eq_of_lt hcx', Nat.div_eq_of_lt hdx', Nat.mod_eq_of_lt hcx',
      Nat.mod_eq_of_lt hdx',
    Nat.add_zero] at hrow hplace
  have hlayer := congrArg (· / span b.min.z b.max.z) hrow
  have hline := congrArg (· % span b.min.z b.max.z) hrow
  simp only [Nat.mul_comm _ (span b.min.z b.max.z), Nat.mul_add_div hz,
    Nat.mul_add_mod,
    Nat.div_eq_of_lt hcz', Nat.div_eq_of_lt hdz', Nat.mod_eq_of_lt hcz',
      Nat.mod_eq_of_lt hdz',
    Nat.add_zero] at hlayer hline
  obtain ⟨x, y, z⟩ := c
  obtain ⟨x', y', z'⟩ := d
  simp only [Coord.mk.injEq, ← Int32.toInt_inj]
  simp only at *
  omega

/-! ## Steps of the walk -/

/-- A step stays in the box and goes to the next rank; where there is none, the
last rank has been reached. -/
theorem next_spec (h : b.contains c = true) :
    match b.next c with
    | some d => b.contains d = true ∧ b.rank d = b.rank c + 1
    | none => b.rank c + 1 = b.count := by
  have hbounds := contains_iff.1 h
  obtain ⟨hx, hy, hz⟩ := hbounds
  have hcount : b.count =
      ((span b.min.y b.max.y - 1) * span b.min.z b.max.z
        + (span b.min.z b.max.z - 1) + 1)
        * span b.min.x b.max.x := by
    have hy' : 0 < span b.min.y b.max.y := by simp only [span]; omega
    have hz' : 0 < span b.min.z b.max.z := by simp only [span]; omega
    have hlayers : (span b.min.y b.max.y - 1) * span b.min.z b.max.z
        + (span b.min.z b.max.z - 1) + 1
            = span b.min.y b.max.y * span b.min.z b.max.z := by
      rw [Nat.add_assoc, Nat.sub_add_cancel hz', Nat.sub_mul, Nat.one_mul]
      exact Nat.sub_add_cancel (Nat.le_mul_of_pos_left _ hy')
    rw [hlayers, count, Nat.mul_comm, Nat.mul_comm (span b.min.x b.max.x),
      ← Nat.mul_assoc,
      Nat.mul_comm (span b.min.z b.max.z)]
  by_cases hnx : c.x < b.max.x
  · have hlt := Int32.lt_iff_toInt_lt.1 hnx
    simp only [next, hnx, if_true, contains_iff, rank, Word.toInt_succ hnx]
    omega
  have hlast : c.x.toInt = b.max.x.toInt := by
    have := mt Int32.lt_iff_toInt_lt.2 hnx
    omega
  by_cases hnz : c.z < b.max.z
  · have hlt := Int32.lt_iff_toInt_lt.1 hnz
    have hspan : span b.min.x b.max.x
        = (c.x.toInt - b.min.x.toInt).toNat + 1 := by
      simp only [span]; omega
    have hnext : (c.z.toInt + 1 - b.min.z.toInt).toNat
        = (c.z.toInt - b.min.z.toInt).toNat + 1 := by omega
    simp only [next, hnx, hnz, if_true, if_false, contains_iff, rank,
      Word.toInt_succ hnz, hnext]
    refine ⟨by omega, ?_⟩
    rw [← Nat.add_assoc, Nat.add_mul _ 1, Nat.one_mul]
    omega
  have hlastz : c.z.toInt = b.max.z.toInt := by
    have := mt Int32.lt_iff_toInt_lt.2 hnz
    omega
  have hspanx : span b.min.x b.max.x
      = (c.x.toInt - b.min.x.toInt).toNat + 1 := by
    simp only [span]; omega
  have hspanz : span b.min.z b.max.z
      = (c.z.toInt - b.min.z.toInt).toNat + 1 := by
    simp only [span]; omega
  by_cases hny : c.y < b.max.y
  · have hlt := Int32.lt_iff_toInt_lt.1 hny
    have hnext : (c.y.toInt + 1 - b.min.y.toInt).toNat
        = (c.y.toInt - b.min.y.toInt).toNat + 1 := by omega
    simp only [next, hnx, hnz, hny, if_true, if_false, contains_iff, rank,
      Word.toInt_succ hny,
      hnext]
    refine ⟨by omega, ?_⟩
    rw [Nat.add_mul _ 1, Nat.one_mul, Int.sub_self, Int.sub_self, hspanz]
    simp only [Int.toNat_zero, Nat.add_zero, ← Nat.add_assoc]
    rw [Nat.add_mul _ 1, Nat.one_mul]
    omega
  · have hspany : span b.min.y b.max.y - 1
        = (c.y.toInt - b.min.y.toInt).toNat := by
      have := mt Int32.lt_iff_toInt_lt.2 hny
      simp only [span]; omega
    simp only [next, hnx, hnz, hny, if_false, hcount, hspany, rank]
    rw [Nat.add_mul _ 1, Nat.one_mul, hspanz, Nat.add_sub_cancel]
    omega

/-- A walk that stands at a coordinate of the box visits the coordinates of the
next ranks, as far as it goes. -/
theorem map_rank_walk (n : Nat) (h : b.contains c = true)
    (hn : b.rank c + n ≤ b.count) :
    (b.walk n (some c)).1.map b.rank = List.range' (b.rank c) n
      ∧ ∀ d ∈ (b.walk n (some c)).1, b.contains d = true := by
  induction n generalizing c with
  | zero => simp [walk]
  | succ n ih =>
    have hstep := next_spec h
    cases hnext : b.next c with
    | none =>
      rw [hnext] at hstep
      simp only at hstep
      obtain rfl : n = 0 := by omega
      simp [walk, h]
    | some d =>
      rw [hnext] at hstep
      simp only at hstep
      obtain ⟨hmap, hmem⟩ := ih hstep.1 (by omega)
      simp only [walk, hnext, List.map_cons, List.range'_succ, List.mem_cons,
        forall_eq_or_imp]
      refine ⟨?_, h, hmem⟩
      rw [hmap, hstep.2]

theorem count_eq_zero_of_isEmpty (h : b.isEmpty = true) : b.count = 0 := by
  rw [isEmpty_iff] at h
  rcases h with h | h | h
  · have : span b.min.x b.max.x = 0 := by simp only [span]; omega
    simp [count, this]
  · have : span b.min.y b.max.y = 0 := by simp only [span]; omega
    simp [count, this]
  · have : span b.min.z b.max.z = 0 := by simp only [span]; omega
    simp [count, this]

/-- The walk goes through the ranks of the box in order. -/
theorem map_rank_toList :
    b.toList.map b.rank = List.range b.count
      ∧ ∀ d ∈ b.toList, b.contains d = true := by
  by_cases hempty : b.isEmpty = true
  · simp [toList, count_eq_zero_of_isEmpty hempty, walk]
  · have hmin : b.contains b.min = true := by
      rw [isEmpty_iff] at hempty
      rw [contains_iff]
      omega
    have hrank : b.rank b.min = 0 := by simp [rank]
    have hwalk := map_rank_walk b.count hmin (by omega)
    rw [hrank, ← List.range_eq_range'] at hwalk
    simpa [toList, first, hempty] using hwalk

/-- The walk lists exactly the coordinates that the box contains. -/
theorem mem_toList_iff : c ∈ b.toList ↔ b.contains c = true := by
  refine ⟨map_rank_toList.2 c, ?_⟩
  intro h
  have hrank : b.rank c ∈ b.toList.map b.rank := by
    rw [map_rank_toList.1, List.mem_range]
    exact rank_lt_count h
  obtain ⟨d, hd, heq⟩ := List.mem_map.1 hrank
  rwa [← rank_injective (map_rank_toList.2 d hd) h heq]

/-- No coordinate comes twice. -/
theorem nodup_toList : b.toList.Nodup := by
  have hranks : (b.toList.map b.rank).Nodup := by
    rw [map_rank_toList.1]
    exact List.nodup_range
  exact List.Pairwise.of_map b.rank (fun _ _ hne => mt (congrArg b.rank) hne)
    hranks

@[simp]
theorem length_toList : b.toList.length = b.count := by
  have h := congrArg List.length (map_rank_toList (b := b)).1
  simpa using h

end Box

end ChunkStream
