import ChunkStream.Proofs.Buffer.Cells

/-!
# Where blocks stand in the world

A chunk stands at its coordinate times its dimensions.  The lowest corner is
computed in words and checked; the positions of the blocks are taken over the
integers here.  A cube that can be allocated has an edge far below the words, so
that no size is cut when it is taken as one, and the checks on the corner are
all that can fail.
-/

namespace ChunkStream

/-- A block position of the world. -/
structure Site where
  x : Int
  y : Int
  z : Int

variable {c corner : Coord} {s n : Nat}

namespace Dims

/-- Where a cell of the chunk at a coordinate stands. -/
def site (d : Dims) (c : Coord) (p : Cell) : Site :=
  ⟨c.x.toInt * d.x + p.x, c.y.toInt * d.y + p.y, c.z.toInt * d.z + p.z⟩

@[simp]
theorem cube_y (s : Nat) : (cube s).y = s := rfl

theorem allocate_cube (h : 4 * (s * s * s) ≤ maxBytes) :
    (cube s).allocate = .ok (s * s * s) := by
  have hcube : s * s * s < Size.limit := by
    unfold maxBytes at h
    unfold Size.limit
    omega
  have hsquare : s * s < Size.limit := by
    rcases Nat.eq_zero_or_pos s with rfl | hs
    · decide
    · exact Nat.lt_of_le_of_lt (Nat.le_mul_of_pos_right (s * s) hs) hcube
  exact allocate_eq_ok_iff.2 ⟨volume_eq_ok_iff.2 ⟨hsquare, hcube, rfl⟩, h⟩

/-- The edge of a cube that can be allocated is far below the words. -/
theorem edge_lt_of_allocate (h : (cube s).allocate = .ok n) :
    s < 2147483648 := by
  obtain ⟨hn, hbytes⟩ := of_allocate_eq_ok h
  obtain rfl : n = s * s * s := hn
  unfold maxBytes at hbytes
  apply Nat.lt_of_not_le
  intro hedge
  have hcube : 2147483648 * 2147483648 * 2147483648 ≤ s * s * s :=
    Nat.mul_le_mul (Nat.mul_le_mul hedge hedge) hedge
  omega

end Dims

namespace Buffer

/-- The lowest corner of a cube is the exact product on every axis. -/
theorem base_cube_eq_ok_iff (hs : s < 2147483648) :
    base c (.cube s) = .ok corner ↔ corner.x.toInt = c.x.toInt * s
      ∧ corner.y.toInt = c.y.toInt * s ∧ corner.z.toInt = c.z.toInt * s := by
  have hmul (a w : Int32) : Word.mul a (Size.toWord s) = .ok w
      ↔ w.toInt = a.toInt * s := by
    rw [Word.mul, Word.exactly_eq_ok_iff, Size.toInt_toWord hs]
  simp only [← hmul]
  constructor
  · intro h
    obtain ⟨x, hx, h⟩ := exists_of_bind_eq_ok h
    obtain ⟨y, hy, h⟩ := exists_of_bind_eq_ok h
    obtain ⟨z, hz, h⟩ := exists_of_bind_eq_ok h
    cases h
    exact ⟨hx, hy, hz⟩
  · rintro ⟨hx, hy, hz⟩
    simp only [base, Dims.cube, hx, hy, hz, bind, Except.bind, pure,
      Except.pure]

theorem exists_base_cube_iff (hs : s < 2147483648) :
    (∃ corner, base c (.cube s) = .ok corner) ↔ Word.Fits (c.x.toInt * s)
      ∧ Word.Fits (c.y.toInt * s) ∧ Word.Fits (c.z.toInt * s) := by
  constructor
  · rintro ⟨corner, h⟩
    obtain ⟨hx, hy, hz⟩ := (base_cube_eq_ok_iff hs).1 h
    exact ⟨hx ▸ Word.fits_toInt _, hy ▸ Word.fits_toInt _,
      hz ▸ Word.fits_toInt _⟩
  · rintro ⟨hx, hy, hz⟩
    exact ⟨⟨Int32.ofInt _, Int32.ofInt _, Int32.ofInt _⟩,
      (base_cube_eq_ok_iff hs).2 ⟨Word.toInt_ofInt_of_fits hx,
        Word.toInt_ofInt_of_fits hy, Word.toInt_ofInt_of_fits hz⟩⟩

end Buffer

end ChunkStream
