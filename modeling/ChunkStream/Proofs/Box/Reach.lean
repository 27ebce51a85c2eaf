import ChunkStream.Proofs.Box.Walk

/-!
# How far boxes reach

A box around a center is known by how far it reaches along each axis: its
corners are the words nearest to the exact bounds.  A coordinate is made of
words, so for membership the clamping does not matter: a coordinate is in the
neighbourhood of another when they are at most one apart on both horizontal
axes, also at the edge of the world.  Growing such a box adds to its reach,
because a bound that has been clamped stays clamped when it moves outwards.
Hence neighbours are each other's, and what is retained around a footprint has
the neighbours of the footprint in it.
-/

namespace ChunkStream

/-- The axes of a coordinate are words. -/
theorem Coord.axes_fit (c : Coord) :
    (-2147483648 ≤ c.x.toInt ∧ c.x.toInt ≤ 2147483647)
      ∧ (-2147483648 ≤ c.y.toInt ∧ c.y.toInt ≤ 2147483647)
      ∧ (-2147483648 ≤ c.z.toInt ∧ c.z.toInt ≤ 2147483647) :=
  ⟨Word.fits_toInt c.x, Word.fits_toInt c.y, Word.fits_toInt c.z⟩

namespace Word

variable {a b : Int32} {n : Int} {r : Nat}

/-- Clamping to the words does not matter to a bound that is one, or lies
beyond. -/
theorem clampedSub_le_iff (hb : 0 ≤ b.toInt) (hn : -2147483648 ≤ n) :
    (clampedSub a b).toInt ≤ n ↔ a.toInt ≤ n + b.toInt := by
  have ha := fits_toInt a
  rw [Fits] at ha
  rw [clampedSub, toInt_nearest]
  omega

theorem le_clampedAdd_iff (hb : 0 ≤ b.toInt) (hn : n ≤ 2147483647) :
    n ≤ (clampedAdd a b).toInt ↔ n - b.toInt ≤ a.toInt := by
  have ha := fits_toInt a
  rw [Fits] at ha
  rw [clampedAdd, toInt_nearest]
  omega

/-- A lower bound that has been clamped moves down as the exact one does. -/
theorem clampedSub_nearest (hb : 0 ≤ b.toInt) :
    clampedSub (nearest (a.toInt - r)) b
      = nearest (a.toInt - (r + b.toInt.toNat : Nat)) := by
  have ha := fits_toInt a
  rw [Fits] at ha
  rw [clampedSub, ← Int32.toInt_inj, toInt_nearest, toInt_nearest,
    toInt_nearest]
  omega

theorem clampedAdd_nearest (hb : 0 ≤ b.toInt) :
    clampedAdd (nearest (a.toInt + r)) b
      = nearest (a.toInt + (r + b.toInt.toNat : Nat)) := by
  have ha := fits_toInt a
  rw [Fits] at ha
  rw [clampedAdd, ← Int32.toInt_inj, toInt_nearest, toInt_nearest,
    toInt_nearest]
  omega

/-- Between the clamped bounds are the words that are between the exact ones. -/
theorem between_nearest_iff {d : Int32} :
    (nearest (a.toInt - r)).toInt ≤ d.toInt
        ∧ d.toInt ≤ (nearest (a.toInt + r)).toInt
      ↔ (d.toInt - a.toInt).natAbs ≤ r := by
  have ha := fits_toInt a
  have hd := fits_toInt d
  rw [Fits] at ha hd
  rw [toInt_nearest, toInt_nearest]
  omega

/-- A half-size as it counts. -/
theorem toInt_max_zero (a : Int32) :
    (Max.max a 0).toInt = (a.toInt.toNat : Int) := by
  show (if a ≤ 0 then (0 : Int32) else a).toInt = _
  split
  · next h =>
    rw [Int32.le_iff_toInt_le, Int32.toInt_zero] at h
    rw [Int32.toInt_zero]
    omega
  · next h =>
    rw [Int32.le_iff_toInt_le, Int32.toInt_zero] at h
    omega

end Word

/-- How far a box reaches from its center along each axis. -/
structure Reach where
  x : Nat
  y : Nat
  z : Nat
deriving DecidableEq, Repr

namespace Reach

instance : Add Reach := ⟨fun r s => ⟨r.x + s.x, r.y + s.y, r.z + s.z⟩⟩

variable {r s : Reach} {c d d' : Coord}

@[simp]
theorem add_x (r s : Reach) : (r + s).x = r.x + s.x := rfl

@[simp]
theorem add_y (r s : Reach) : (r + s).y = r.y + s.y := rfl

@[simp]
theorem add_z (r s : Reach) : (r + s).z = r.z + s.z := rfl

/-- The coordinates are within the reach of each other. -/
structure Spans (r : Reach) (c d : Coord) : Prop where
  x : (d.x.toInt - c.x.toInt).natAbs ≤ r.x
  y : (d.y.toInt - c.y.toInt).natAbs ≤ r.y
  z : (d.z.toInt - c.z.toInt).natAbs ≤ r.z

theorem Spans.symm (h : r.Spans c d) : r.Spans d c := by
  obtain ⟨hx, hy, hz⟩ := h
  exact ⟨by omega, by omega, by omega⟩

/-- Reaches add up along the way. -/
theorem Spans.trans (h : r.Spans c d) (h' : s.Spans d d') :
    (r + s).Spans c d' := by
  obtain ⟨hx, hy, hz⟩ := h
  obtain ⟨hx', hy', hz'⟩ := h'
  exact ⟨by rw [add_x]; omega, by rw [add_y]; omega, by rw [add_z]; omega⟩

theorem Spans.mono (h : r.Spans c d) (hx : r.x ≤ s.x) (hy : r.y ≤ s.y)
    (hz : r.z ≤ s.z) : s.Spans c d :=
  ⟨h.x.trans hx, h.y.trans hy, h.z.trans hz⟩

end Reach

namespace Extents

/-- No half-size is negative. -/
structure Nonneg (e : Extents) : Prop where
  x : 0 ≤ e.x.toInt
  y : 0 ≤ e.y.toInt
  z : 0 ≤ e.z.toInt

theorem nonneg_production : production.Nonneg :=
  ⟨by decide, by decide, by decide⟩

theorem nonneg_retention : retention.Nonneg :=
  ⟨by decide, by decide, by decide⟩

/-- Half-sizes as they count: a negative one is zero. -/
def reach (e : Extents) : Reach :=
  ⟨e.x.toInt.toNat, e.y.toInt.toNat, e.z.toInt.toNat⟩

/-- The reach of a distance is the distance, as far as there are words. -/
theorem reach_horizontal_nearest (n : UInt32) :
    (horizontal (Word.nearest n.toNat)).reach
      = ⟨Min.min n.toNat 2147483647, 0, Min.min n.toNat 2147483647⟩ := by
  have hnearest : (Word.nearest n.toNat).toInt.toNat
      = Min.min n.toNat 2147483647 := by
    rw [Word.toInt_nearest]
    omega
  rw [reach, horizontal, hnearest]
  rfl

end Extents

namespace Box

variable {b : Box} {c d : Coord} {r : Reach} {e : Extents}

/-! ## Boxes with a center -/

/-- The box around a center with some reach. -/
def reaching (c : Coord) (r : Reach) : Box where
  min := ⟨Word.nearest (c.x.toInt - r.x), Word.nearest (c.y.toInt - r.y),
    Word.nearest (c.z.toInt - r.z)⟩
  max := ⟨Word.nearest (c.x.toInt + r.x), Word.nearest (c.y.toInt + r.y),
    Word.nearest (c.z.toInt + r.z)⟩

/-- A coordinate is in the box when it is within the exact reach. -/
theorem contains_reaching_iff :
    (reaching c r).contains d = true ↔ r.Spans c d := by
  simp only [contains_iff, reaching, Word.between_nearest_iff]
  exact ⟨fun ⟨hx, hy, hz⟩ => ⟨hx, hy, hz⟩, fun ⟨hx, hy, hz⟩ => ⟨hx, hy, hz⟩⟩

theorem contains_reaching_self : (reaching c r).contains c = true := by
  rw [contains_reaching_iff]
  exact ⟨by simp, by simp, by simp⟩

theorem around_eq_reaching (c : Coord) (e : Extents) :
    around c e = reaching c e.reach := by
  simp only [around, reaching, Extents.reach, Word.clampedSub, Word.clampedAdd,
    Word.toInt_max_zero]

theorem footprint_eq_reaching (c : Coord) (n : UInt32) :
    footprint c n = reaching c
      ⟨Min.min n.toNat 2147483647, 0, Min.min n.toNat 2147483647⟩ := by
  rw [footprint, around_eq_reaching, Extents.reach_horizontal_nearest]

theorem neighborhood_eq_reaching (c : Coord) :
    neighborhood c = reaching c ⟨1, 0, 1⟩ :=
  around_eq_reaching c _

/-- A box that grows by the half-sizes reaches that much further. -/
theorem expand_reaching (he : e.Nonneg) :
    (reaching c r).expand e = reaching c (r + e.reach) := by
  rw [expand, if_neg (by simp [not_isEmpty_of_contains contains_reaching_self])]
  simp only [reaching, Word.clampedSub_nearest he.x,
    Word.clampedSub_nearest he.y, Word.clampedSub_nearest he.z,
    Word.clampedAdd_nearest he.x, Word.clampedAdd_nearest he.y,
    Word.clampedAdd_nearest he.z, Extents.reach, Reach.add_x, Reach.add_y,
    Reach.add_z]

/-- Neighbours are at most one apart on the horizontal axes and on the same
layer. -/
theorem contains_neighborhood_iff :
    (neighborhood c).contains d = true ↔
      (c.x.toInt - 1 ≤ d.x.toInt ∧ d.x.toInt ≤ c.x.toInt + 1)
        ∧ d.y.toInt = c.y.toInt
        ∧ (c.z.toInt - 1 ≤ d.z.toInt ∧ d.z.toInt ≤ c.z.toInt + 1) := by
  rw [neighborhood_eq_reaching, contains_reaching_iff]
  constructor
  · rintro ⟨hx, hy, hz⟩
    simp only at hx hy hz
    omega
  · rintro ⟨hx, hy, hz⟩
    exact ⟨by simp only; omega, by simp only; omega, by simp only; omega⟩

theorem contains_neighborhood_comm :
    (neighborhood c).contains d = true ↔
    (neighborhood d).contains c = true := by
  simp only [neighborhood_eq_reaching, contains_reaching_iff]
  exact ⟨.symm, .symm⟩

@[simp]
theorem contains_neighborhood_self : (neighborhood c).contains c = true := by
  rw [neighborhood_eq_reaching]
  exact contains_reaching_self

/-- The box of one coordinate. -/
theorem contains_singleton (c : Coord) : (Box.mk c c).contains c = true := by
  simp [contains_iff]

theorem eq_of_contains_singleton (h : (Box.mk c c).contains d = true) :
    d = c := by
  obtain ⟨hx, hy, hz⟩ := contains_iff.1 h
  cases c
  cases d
  dsimp only at hx hy hz
  rw [Coord.mk.injEq]
  exact ⟨Int32.toInt_inj.1 (by omega), Int32.toInt_inj.1 (by omega),
    Int32.toInt_inj.1 (by omega)⟩

/-- A span between clamped bounds is at most the exact one. -/
theorem span_nearest_le (a : Int) (n : Nat) :
    span (Word.nearest (a - n)) (Word.nearest (a + n)) ≤ 2 * n + 1 := by
  rw [span, Word.toInt_nearest, Word.toInt_nearest]
  omega

/-- A neighbourhood has at most nine coordinates. -/
theorem count_neighborhood_le : (neighborhood c).count ≤ 9 := by
  rw [neighborhood_eq_reaching]
  calc (reaching c ⟨1, 0, 1⟩).count
      ≤ 3 * 1 * 3 := Nat.mul_le_mul
        (Nat.mul_le_mul (span_nearest_le _ 1) (span_nearest_le _ 0))
        (span_nearest_le _ 1)
    _ = 9 := rfl

/-- A footprint grown by the margin of production has all coordinates of the
layer that are within the distance and two more on both horizontal axes, also
at the edge of the world. -/
theorem contains_expand_footprint_iff {n : UInt32} :
    ((footprint c n).expand .production).contains d = true ↔
      (d.x.toInt - c.x.toInt).natAbs ≤ Min.min n.toNat 2147483647 + 2
        ∧ d.y = c.y
        ∧ (d.z.toInt - c.z.toInt).natAbs ≤ Min.min n.toNat 2147483647 + 2 := by
  rw [footprint_eq_reaching, expand_reaching Extents.nonneg_production,
    contains_reaching_iff, ← Int32.toInt_inj]
  constructor
  · rintro ⟨hx, hy, hz⟩
    have hlayer : (d.y.toInt - c.y.toInt).natAbs ≤ 0 := hy
    exact ⟨hx, by omega, hz⟩
  · rintro ⟨hx, hy, hz⟩
    have hlayer : (d.y.toInt - c.y.toInt).natAbs ≤ 0 := by omega
    exact ⟨hx, hlayer, hz⟩

/-! ## Boxes of any shape -/

/-- A box grows by the half-sizes on each axis. -/
theorem contains_expand_iff (h : b.contains c = true) (he : e.Nonneg) :
    (b.expand e).contains d = true ↔
      (b.min.x.toInt ≤ d.x.toInt + e.x.toInt
        ∧ d.x.toInt - e.x.toInt ≤ b.max.x.toInt)
      ∧ (b.min.y.toInt ≤ d.y.toInt + e.y.toInt
        ∧ d.y.toInt - e.y.toInt ≤ b.max.y.toInt)
      ∧ b.min.z.toInt ≤ d.z.toInt + e.z.toInt
        ∧ d.z.toInt - e.z.toInt ≤ b.max.z.toInt := by
  have hd := d.axes_fit
  obtain ⟨hx, hy, hz⟩ := he
  rw [expand, if_neg (by simp [not_isEmpty_of_contains h]), contains_iff]
  simp (disch := omega) only [Word.clampedSub_le_iff, Word.le_clampedAdd_iff]

theorem contains_expand_production (h : b.contains c = true) :
    (b.expand .production).contains c = true := by
  have hx : Extents.production.x.toInt = 2 := rfl
  have hy : Extents.production.y.toInt = 0 := rfl
  have hz : Extents.production.z.toInt = 2 := rfl
  have hbounds := contains_iff.1 h
  rw [contains_expand_iff h Extents.nonneg_production]
  omega

/-- What is retained around a box has the neighbours of the box in it. -/
theorem contains_expand_retention (h : b.contains c = true)
    (hd : (neighborhood c).contains d = true) :
    (b.expand .retention).contains d = true := by
  have hx : Extents.retention.x.toInt = 4 := rfl
  have hy : Extents.retention.y.toInt = 0 := rfl
  have hz : Extents.retention.z.toInt = 4 := rfl
  have hbounds := contains_iff.1 h
  rw [contains_neighborhood_iff] at hd
  rw [contains_expand_iff h Extents.nonneg_retention]
  omega

end Box

end ChunkStream
