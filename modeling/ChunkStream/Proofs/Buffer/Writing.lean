import ChunkStream.Proofs.Buffer.Cells
import Mathlib.Data.List.Induction

/-!
# What a buffer holds after some writes

The index is a one-to-one correspondence of the cells of a box and the numbers
below its volume, and no product on the way to an index overflows when the
volume does not.  So a buffer that was made from some blocks is a store with a
place for each cell: writes and reads go through, a read gives what was written
there last, or else the block that the buffer was made with, and the number of
blocks stays.
-/

namespace ChunkStream

namespace Dims

variable {d : Dims} {p : Cell} {i : Nat}

/-- A cell of the box is the one that its index names. -/
theorem index_eq_ok_iff (hfits : d.x * d.y * d.z < Size.limit)
    (hp : p.Within d) : d.index p = .ok i ↔ p = d.cell i := by
  rw [index_of_within hp (Nat.le_of_lt hfits), Except.ok.injEq]
  constructor
  · rintro rfl
    exact (cell_number hp).symm
  · rintro rfl
    exact number_cell d i

end Dims

namespace Buffer

variable {b : Buffer} {c : Coord} {d : Dims} {blocks : Array Block}
  {writes : List (Cell × Block)} {p : Cell}

/-! ## Making a buffer -/

/-- The buffer holds the blocks in linear order, and air where there are none
left. -/
structure Holds (c : Coord) (d : Dims) (blocks : Array Block) (b : Buffer) :
    Prop where
  coord : b.coord = c
  dims : b.dims = d
  full : b.Full
  get : ∀ p, p.Within d → b.get p = .ok (blocks[d.number p]?.getD .air)

/-- Blocks for all cells, each of them the given one or air, make a buffer. -/
theorem holds_of_getElem? {held : Array Block}
    (hsize : held.size = d.x * d.y * d.z)
    (hfits : d.x * d.y * d.z < Size.limit)
    (hheld : ∀ i < d.x * d.y * d.z, held[i]? = some (blocks[i]?.getD .air)) :
    Holds c d blocks ⟨c, d, held⟩ := by
  have hfull : Full ⟨c, d, held⟩ := ⟨hsize, hsize ▸ hfits⟩
  refine ⟨rfl, rfl, hfull, fun p hp => ?_⟩
  rw [hfull.get_eq_ok_iff hp]
  exact hheld _ (Dims.number_lt hp)

/-- A buffer can be made of blocks when its volume can be computed and those
that are missing can be allocated. -/
theorem exists_ofBlocks_iff :
    (∃ b, ofBlocks c d blocks = .ok b) ↔ d.x * d.y < Size.limit
      ∧ d.x * d.y * d.z < Size.limit
      ∧ (d.x * d.y * d.z ≤ blocks.size
        ∨ 4 * (d.x * d.y * d.z) ≤ Dims.maxBytes) := by
  constructor
  · rintro ⟨b, h⟩
    obtain ⟨n, hvolume, h⟩ := exists_of_bind_eq_ok h
    obtain ⟨hxy, hfits, rfl⟩ := Dims.volume_eq_ok_iff.1 hvolume
    refine ⟨hxy, hfits, ?_⟩
    split at h
    · next henough => exact .inl henough
    · obtain ⟨n, hallocate, -⟩ := exists_of_bind_eq_ok h
      obtain ⟨rfl, hbytes⟩ := Dims.of_allocate_eq_ok hallocate
      exact .inr hbytes
  · rintro ⟨hxy, hfits, h⟩
    have hvolume := Dims.volume_eq_ok_iff.2 ⟨hxy, hfits, rfl⟩
    unfold ofBlocks
    rw [hvolume]
    show ∃ b, ite _ _ _ = _
    split
    · exact ⟨_, rfl⟩
    · next hfew =>
      rw [Dims.allocate_eq_ok_iff.2 ⟨hvolume, h.resolve_left hfew⟩]
      exact ⟨_, rfl⟩

theorem holds_of_ofBlocks (h : ofBlocks c d blocks = .ok b) :
    Holds c d blocks b := by
  obtain ⟨n, hvolume, h⟩ := exists_of_bind_eq_ok h
  obtain ⟨-, hfits, rfl⟩ := Dims.volume_eq_ok_iff.1 hvolume
  split at h
  · next henough =>
    cases h
    refine holds_of_getElem? (by simp [henough]) hfits fun i hi => ?_
    have hlt : i < blocks.size := Nat.lt_of_lt_of_le hi henough
    rw [Array.getElem?_extract, if_pos (by omega), Nat.zero_add,
      Array.getElem?_eq_getElem hlt]
    rfl
  · next hfew =>
    obtain ⟨n, hallocate, h⟩ := exists_of_bind_eq_ok h
    obtain ⟨rfl, -⟩ := Dims.of_allocate_eq_ok hallocate
    cases h
    refine holds_of_getElem? (by simp; omega) hfits fun i hi => ?_
    rw [Array.getElem?_append, Array.getElem?_replicate]
    split
    · next hlt => simp [hlt]
    · next hge =>
      rw [if_pos (by omega), Array.getElem?_eq_none (by omega)]
      rfl

/-- A buffer of air is one that no blocks were given for. -/
theorem air_eq_ofBlocks (c : Coord) (d : Dims) :
    air c d = ofBlocks c d #[] := by
  unfold air ofBlocks Dims.allocate
  cases hvolume : d.volume with
  | error cause => rfl
  | ok n =>
    cases n with
    | zero => rfl
    | succ n =>
      have hfew : ¬n + 1 ≤ 0 := Nat.not_succ_le_zero n
      simp only [bind, Except.bind, List.size_toArray, List.length_nil,
        if_neg hfew, Array.empty_append, Nat.sub_zero]

/-! ## Writing -/

/-- The buffer after some writes, in order. -/
def write (writes : List (Cell × Block)) (b : Buffer) : Except Fault Buffer :=
  writes.foldlM (fun b w => b.set w.1 w.2) b

/-- The block that was written to a cell last, if any was. -/
def lastWritten? (writes : List (Cell × Block)) (p : Cell) : Option Block :=
  writes.reverse.lookup p

theorem write_concat (writes : List (Cell × Block)) (w : Cell × Block)
    (b : Buffer) :
    b.write (writes ++ [w]) = b.write writes >>= fun b => b.set w.1 w.2 := by
  rw [write, List.foldlM_append]
  simp [write]

theorem lastWritten?_concat (writes : List (Cell × Block)) (w : Cell × Block)
    (p : Cell) :
    lastWritten? (writes ++ [w]) p
      = if p = w.1 then some w.2 else lastWritten? writes p := by
  rw [lastWritten?, List.reverse_concat, List.lookup_cons]
  by_cases h : p = w.1
  · rw [if_pos h, beq_iff_eq.2 h]
  · rw [if_neg h, beq_eq_false_iff_ne.2 h, lastWritten?]

/-- Writes to the cells of a buffer go through, and a cell then holds the block
that was written to it last, or the one it held. -/
theorem Full.exists_write (hb : b.Full)
    (hwrites : ∀ w ∈ writes, w.1.Within b.dims) :
    ∃ next, b.write writes = .ok next ∧ b.SameShape next
      ∧ ∀ p, p.Within b.dims → next.get p
        = match lastWritten? writes p with
          | some block => .ok block
          | none => b.get p := by
  induction writes using List.reverseRecOn with
  | nil => exact ⟨b, rfl, .refl b, fun p _ => rfl⟩
  | append_singleton writes w ih =>
    rw [List.forall_mem_append, List.forall_mem_singleton] at hwrites
    obtain ⟨mid, hmid, hshape, hget⟩ := ih hwrites.1
    have hcell : w.1.Within mid.dims := hshape.dims ▸ hwrites.2
    have hfull := hb.congr hshape
    have hput := sameShape_put mid (mid.dims.number w.1) w.2
    refine ⟨_, ?_, hshape.trans hput, fun p hp => ?_⟩
    · rw [write_concat, hmid]
      exact hfull.set_eq hcell
    · rw [hfull.get_put hcell (hshape.dims ▸ hp), lastWritten?_concat]
      split
      · rfl
      · exact hget p hp

/-- Every cell holds the block that was written to it last, or else the one that
the buffer was made with. -/
theorem Holds.exists_write (hb : Holds c d blocks b)
    (hwrites : ∀ w ∈ writes, w.1.Within d) :
    ∃ next, b.write writes = .ok next ∧ next.coord = c ∧ next.dims = d
      ∧ next.blocks.size = d.x * d.y * d.z
      ∧ ∀ p, p.Within d → next.get p = .ok
        ((lastWritten? writes p).getD (blocks[d.number p]?.getD .air)) := by
  obtain ⟨rfl, rfl, hfull⟩ : b.coord = c ∧ b.dims = d ∧ b.Full :=
    ⟨hb.coord, hb.dims, hb.full⟩
  obtain ⟨next, hnext, hshape, hget⟩ := hfull.exists_write hwrites
  refine ⟨next, hnext, hshape.coord, hshape.dims, ?_, fun p hp => ?_⟩
  · rw [hshape.size, hfull.blocks]
  · rw [hget p hp]
    cases lastWritten? writes p with
    | some block => rfl
    | none => exact hb.get p hp

/-- The index is a bijection, and a buffer a store with a place for each cell.
Of dimensions whose product is a size every cell has an index below the volume,
and every number below the volume is the index of one cell.  A buffer can be
made of blocks up to the limits of sizes and of allocation, a buffer of air is
one made of none, and after any writes to its cells a buffer still has all its
blocks and gives at each cell the one that was written last, or else the given
one with the index of the cell, or air. -/
theorem index_bijective (d : Dims) (hfits : d.x * d.y * d.z < Size.limit) :
    (∀ p, p.Within d → ∃ i < d.x * d.y * d.z, d.index p = .ok i)
      ∧ (∀ i < d.x * d.y * d.z, ∃ p, (p.Within d ∧ d.index p = .ok i)
        ∧ ∀ q, q.Within d → d.index q = .ok i → q = p)
      ∧ ∀ (c : Coord) (blocks : Array Block),
        ((∃ b, ofBlocks c d blocks = .ok b) ↔ d.x * d.y < Size.limit
          ∧ (d.x * d.y * d.z ≤ blocks.size
            ∨ 4 * (d.x * d.y * d.z) ≤ Dims.maxBytes))
        ∧ air c d = ofBlocks c d #[]
        ∧ ∀ b, ofBlocks c d blocks = .ok b →
          ∀ writes : List (Cell × Block), (∀ w ∈ writes, w.1.Within d) →
          ∃ next, b.write writes = .ok next
            ∧ next.coord = c ∧ next.dims = d
            ∧ next.blocks.size = d.x * d.y * d.z
            ∧ ∀ p i, p.Within d → d.index p = .ok i → next.get p = .ok
              ((lastWritten? writes p).getD (blocks[i]?.getD .air)) := by
  have hindex {p : Cell} (hp : p.Within d) : d.index p = .ok (d.number p) :=
    Dims.index_of_within hp (Nat.le_of_lt hfits)
  refine ⟨fun p hp => ⟨_, Dims.number_lt hp, hindex hp⟩, fun i hi => ?_,
    fun c blocks => ⟨?_, air_eq_ofBlocks c d, fun b hb writes hwrites => ?_⟩⟩
  · have hcell := Dims.within_cell hi
    exact ⟨d.cell i, ⟨hcell, (Dims.index_eq_ok_iff hfits hcell).2 rfl⟩,
      fun q hq => (Dims.index_eq_ok_iff hfits hq).1⟩
  · rw [exists_ofBlocks_iff]
    simp only [hfits, true_and]
  · obtain ⟨next, hnext, hcoord, hdims, hsize, hget⟩ :=
      (holds_of_ofBlocks hb).exists_write hwrites
    refine ⟨next, hnext, hcoord, hdims, hsize, fun p i hp hi => ?_⟩
    rw [hindex hp] at hi
    cases hi
    exact hget p hp

/-- A buffer of eight cells is made of three blocks, and written to twice in one
cell and once in another. -/
theorem index_bijective_of_scribbles :
    let d : Dims := .cube 2
    let writes : List (Cell × Block) :=
      [(⟨0, 0, 0⟩, .sand), (⟨1, 1, 1⟩, .water), (⟨0, 0, 0⟩, .dirt)]
    d.x * d.y * d.z < Size.limit
      ∧ ∃ b next, ofBlocks .origin d #[.grass, .stone, .grass] = .ok b
        ∧ (∀ w ∈ writes, w.1.Within d) ∧ b.write writes = .ok next
        ∧ next.blocks.size = 8
        ∧ next.get ⟨0, 0, 0⟩ = .ok .dirt ∧ next.get ⟨1, 0, 0⟩ = .ok .stone
        ∧ next.get ⟨1, 1, 1⟩ = .ok .water ∧ next.get ⟨0, 1, 0⟩ = .ok .air := by
  intro d writes
  have hwrites : ∀ w ∈ writes, w.1.Within d := by decide
  have hfits : d.x * d.y * d.z < Size.limit := by decide
  obtain ⟨-, -, hbuffers⟩ := index_bijective d hfits
  obtain ⟨hmade, -, hwritten⟩ :=
    hbuffers .origin #[.grass, .stone, .grass]
  obtain ⟨b, hb⟩ := hmade.2 ⟨by decide, .inr (by decide)⟩
  obtain ⟨next, hnext, -, -, hsize, hget⟩ := hwritten b hb writes hwrites
  refine ⟨hfits, b, next, hb, hwrites, hnext, hsize, ?_, ?_, ?_, ?_⟩
  · exact hget ⟨0, 0, 0⟩ 0 (by decide) (by decide)
  · exact hget ⟨1, 0, 0⟩ 1 (by decide) (by decide)
  · exact hget ⟨1, 1, 1⟩ 7 (by decide) (by decide)
  · exact hget ⟨0, 1, 0⟩ 4 (by decide) (by decide)

end Buffer

end ChunkStream
