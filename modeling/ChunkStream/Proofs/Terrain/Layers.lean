import ChunkStream.Proofs.Terrain.Sand
import ChunkStream.Proofs.Terrain.Sites

/-!
# Flat terrain up to the limits of the coordinates

A chunk of flat terrain can be made unless a number that is computed for it is
no word.  These are the three products of the lowest corner and the height of
the highest layer; every other sum lies between two of them.  What is made then
is told by the height of a block over the integers.
-/

namespace ChunkStream

namespace Flat

variable {f : Flat} {c : Coord} {chunk : Chunk} {b : Buffer} {p : Cell}

/-- The lowest corner or the highest layer of the chunk is beyond the words. -/
def Overflows (f : Flat) (c : Coord) : Prop :=
  ¬Word.Fits (c.x.toInt * f.size) ∨ ¬Word.Fits (c.y.toInt * f.size)
    ∨ ¬Word.Fits (c.z.toInt * f.size)
    ∨ 1 ≤ f.size ∧ 2147483647 < c.y.toInt * f.size + f.size - 1

instance (f : Flat) (c : Coord) : Decidable (f.Overflows c) :=
  inferInstanceAs (Decidable (_ ∨ _))

/-- The highest layer is no word exactly when it is above all words: it is not
below the corner. -/
theorem exists_top_iff {corner : Int32} (hs : f.size < 2147483648) :
    (f.size ≠ 0 → ∃ top, Word.add corner (Size.toWord (f.size - 1)) = .ok top)
      ↔ ¬(1 ≤ f.size ∧ 2147483647 < corner.toInt + f.size - 1) := by
  have hlow := (Word.fits_toInt corner).1
  have htop : (Size.toWord (f.size - 1)).toInt = (f.size - 1 : Nat) :=
    Size.toInt_toWord (by omega)
  rw [Word.add, Word.exists_exactly_iff, htop, Word.Fits]
  omega

theorem exists_generate_iff
    (hbytes : 4 * (f.size * f.size * f.size) ≤ Dims.maxBytes) :
    (∃ chunk, f.generate c = .ok chunk) ↔ ¬f.Overflows c := by
  have hallocate := Dims.allocate_cube hbytes
  have hs := Dims.edge_lt_of_allocate hallocate
  constructor
  · rintro ⟨chunk, h⟩
    obtain ⟨n, corner, -, hcorner, htop, -⟩ := generate_eq_ok_iff.1 h
    obtain ⟨hx, hy, hz⟩ := (Buffer.exists_base_cube_iff hs).1 ⟨_, hcorner⟩
    rw [exists_top_iff hs, ((Buffer.base_cube_eq_ok_iff hs).1 hcorner).2.1]
      at htop
    rintro (h | h | h | h)
    · exact h hx
    · exact h hy
    · exact h hz
    · exact htop h
  · intro h
    simp only [Overflows, not_or, Classical.not_not] at h
    obtain ⟨hx, hy, hz, htop⟩ := h
    obtain ⟨corner, hcorner⟩ :=
      (Buffer.exists_base_cube_iff (c := c) hs).2 ⟨hx, hy, hz⟩
    rw [← ((Buffer.base_cube_eq_ok_iff hs).1 hcorner).2.1,
      ← exists_top_iff hs] at htop
    exact ⟨_, generate_eq_ok_iff.2
      ⟨_, corner, hallocate, hcorner, htop, rfl⟩⟩

theorem get_layers {n : Nat} {low : Int} (hfull : (f.layers c n low).Full)
    (hp : p.Within (.cube f.size)) :
    (f.layers c n low).get p = .ok (f.blockAt (low + p.y)) := by
  have hget := Buffer.get_ofFn (f := fun i => f.blockAt
    (low + ((Dims.cube f.size).cell i).y)) hfull hp
  rwa [Dims.cell_number hp] at hget

/-- Each block of a chunk is that of its height. -/
theorem get_of_generate (h : f.generate c = .ok chunk)
    (hgrown : chunk.Grown c f.size f.completion b)
    (hp : p.Within (.cube f.size)) :
    b.get p = .ok (f.blockAt ((Dims.cube f.size).site c p).y) := by
  obtain ⟨n, corner, hallocate, hcorner, -, hchunk⟩ :=
    generate_eq_ok_iff.1 h
  have hs := Dims.edge_lt_of_allocate hallocate
  obtain rfl := hgrown.eq_of_ofBuffer hchunk
  rw [get_layers hgrown.full hp,
    ((Buffer.base_cube_eq_ok_iff hs).1 hcorner).2.1]
  rfl

/-- Flat terrain is exact up to the limits of the coordinates.  Making a chunk
faults exactly when its corner or its highest layer is beyond the words; it is
otherwise made, with stone wherever the height is from zero up to the thickness,
and air elsewhere. -/
theorem generate_exact (f : Flat) (c : Coord)
    (hbytes : 4 * (f.size * f.size * f.size) ≤ 9223372036854775807) :
    ((∃ cause, f.generate c = .error cause) ↔ f.Overflows c)
      ∧ (¬f.Overflows c → ∃ b, f.generate c = .ok (.ofBuffer b f.completion)
        ∧ b.coord = c ∧ b.dims = .cube f.size
        ∧ b.blocks.size = f.size * f.size * f.size
        ∧ ∀ x y z, x < f.size → y < f.size → z < f.size → b.get ⟨x, y, z⟩
          = .ok (if 0 ≤ c.y.toInt * f.size + y
              ∧ c.y.toInt * f.size + y < f.thickness.toInt
            then .stone else .air)) := by
  have hmade := exists_generate_iff (f := f) (c := c) hbytes
  refine ⟨⟨?_, fun h => ?_⟩, fun h => ?_⟩
  · rintro ⟨cause, hcause⟩
    apply Decidable.byContradiction
    intro h
    obtain ⟨chunk, hchunk⟩ := hmade.2 h
    rw [hcause] at hchunk
    cases hchunk
  · cases hresult : f.generate c with
    | error cause => exact ⟨cause, rfl⟩
    | ok chunk => exact absurd h (hmade.1 ⟨chunk, hresult⟩)
  · obtain ⟨chunk, hchunk⟩ := hmade.2 h
    obtain ⟨b, hgrown⟩ := grown_of_generate hchunk
    refine ⟨b, hgrown.chunk ▸ hchunk, hgrown.coord, hgrown.dims, ?_,
      fun x y z hx hy hz => ?_⟩
    · rw [hgrown.full.blocks, hgrown.dims]
      rfl
    · exact get_of_generate hchunk hgrown ⟨hx, hy, hz⟩

/-- The highest layer of the first chunk is one above all words, though its
corner is not; the second chunk holds the upper side of the stone. -/
theorem generate_exact_at_the_top :
    let f : Flat := { size := 3, thickness := 5 }
    4 * (f.size * f.size * f.size) ≤ 9223372036854775807
      ∧ (∃ cause, f.generate ⟨0, 715827882, 0⟩ = .error cause)
      ∧ ∃ b, f.generate ⟨0, 1, 0⟩ = .ok (.ofBuffer b .complete)
        ∧ b.get ⟨2, 1, 2⟩ = .ok .stone ∧ b.get ⟨2, 2, 2⟩ = .ok .air := by
  intro f
  have hbytes : 4 * (f.size * f.size * f.size) ≤ 9223372036854775807 := by
    decide
  obtain ⟨hfaults, -⟩ := generate_exact f ⟨0, 715827882, 0⟩ hbytes
  obtain ⟨-, hmade⟩ := generate_exact f ⟨0, 1, 0⟩ hbytes
  obtain ⟨b, hb, -, -, -, hblocks⟩ := hmade (by decide)
  exact ⟨hbytes, hfaults.2 (by decide), b, hb,
    hblocks 2 1 2 (by decide) (by decide) (by decide),
    hblocks 2 2 2 (by decide) (by decide) (by decide)⟩

end Flat

end ChunkStream
