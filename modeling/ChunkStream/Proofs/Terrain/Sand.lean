import ChunkStream.Proofs.Store.FarStore
import ChunkStream.Terrain.Flat
import ChunkStream.Terrain.Heightfield

/-!
# Making and finishing terrain

Both kinds of terrain make buffers with all their blocks, at the coordinate they
were asked for.  Laying sand keeps the shape of a buffer, and in a buffer with
all its blocks it goes through to the end: every cell it looks at has a cell
above it.  So a chunk that has been made is finished in one go, and what comes
of it depends on its content alone.
-/

namespace ChunkStream

open Buffer (SameShape)

/-! ## Chunks that have been made -/

/-- The chunk is a fresh one of the coordinate, a cube with all its blocks. -/
structure Chunk.Grown (c : Coord) (edge : Nat) (completion : Completion)
    (chunk : Chunk) (b : Buffer) : Prop where
  chunk : chunk = .ofBuffer b completion
  coord : b.coord = c
  dims : b.dims = .cube edge
  full : b.Full

theorem Chunk.Grown.eq_of_ofBuffer {c : Coord} {edge : Nat}
    {completion completion' : Completion} {chunk : Chunk} {b b' : Buffer}
    (h : chunk.Grown c edge completion b)
    (h' : chunk = .ofBuffer b' completion') : b = b' :=
  Option.some.inj (congrArg Chunk.content (h.chunk.symm.trans h'))

/-- The edge of a cube is at most the number of its blocks. -/
theorem Chunk.Grown.storable {c : Coord} {edge : Nat} {completion : Completion}
    {chunk : Chunk} {b : Buffer} (h : chunk.Grown c edge completion b)
    (hplain : (Payload.encodePlain b).length < Bytes.capacity 4) :
    b.Storable := by
  have hblocks : edge * edge * edge < Size.limit := by
    have hsize := h.full.blocks
    rw [h.dims] at hsize
    exact hsize ▸ h.full.fits
  have hedge : edge < Size.limit := by
    have hsquare : edge ≤ edge * edge := Nat.le_mul_self edge
    have hcube : edge * edge ≤ edge * edge * edge := by
      rw [Nat.mul_assoc]
      exact Nat.mul_le_mul_left edge hsquare
    omega
  refine ⟨?_, ?_, ?_, hplain⟩
  all_goals rw [h.dims]; exact hedge

theorem Buffer.full_of_allocate {d : Dims} {n : Nat} (h : d.allocate = .ok n)
    (c : Coord) {blocks : Array Block} (hsize : blocks.size = n) :
    Buffer.Full ⟨c, d, blocks⟩ := by
  obtain ⟨hvolume, hbytes⟩ := Dims.of_allocate_eq_ok h
  refine ⟨hsize.trans hvolume, ?_⟩
  show blocks.size < Size.limit
  unfold Dims.maxBytes at hbytes
  unfold Size.limit
  omega

namespace Flat

variable {f : Flat} {c : Coord} {chunk : Chunk}

/-- The blocks of a chunk that begins at a world height. -/
def layers (f : Flat) (c : Coord) (n : Nat) (low : Int) : Buffer :=
  ⟨c, .cube f.size, Array.ofFn fun i : Fin n =>
    f.blockAt (low + ((Dims.cube f.size).cell i).y)⟩

/-- What has to go well for a chunk to be made. -/
theorem generate_eq_ok_iff :
    f.generate c = .ok chunk ↔ ∃ n corner,
      (Dims.cube f.size).allocate = .ok n
        ∧ Buffer.base c (.cube f.size) = .ok corner
        ∧ (f.size ≠ 0 →
          ∃ top, Word.add corner.y (Size.toWord (f.size - 1)) = .ok top)
        ∧ chunk = .ofBuffer (f.layers c n corner.y.toInt) f.completion := by
  constructor
  · intro h
    obtain ⟨n, hallocate, h⟩ := exists_of_bind_eq_ok h
    obtain ⟨corner, hcorner, h⟩ := exists_of_bind_eq_ok h
    refine ⟨n, corner, hallocate, hcorner, ?_⟩
    split at h
    · obtain ⟨top, htop, h⟩ := exists_of_bind_eq_ok h
      cases h
      exact ⟨fun _ => ⟨top, htop⟩, rfl⟩
    · next hnone =>
      cases h
      exact ⟨fun hsome => absurd hsome hnone, rfl⟩
  · rintro ⟨n, corner, hallocate, hcorner, htop, rfl⟩
    unfold generate
    simp only [hallocate, hcorner, bind, Except.bind]
    split
    · next hsome =>
      obtain ⟨top, htop⟩ := htop hsome
      rw [htop]
      rfl
    · rfl

theorem grown_of_generate (h : f.generate c = .ok chunk) :
    ∃ b, chunk.Grown c f.size f.completion b := by
  obtain ⟨n, corner, hallocate, -, -, rfl⟩ := generate_eq_ok_iff.1 h
  exact ⟨_, rfl, rfl, rfl,
    Buffer.full_of_allocate hallocate c Array.size_ofFn⟩

end Flat

namespace Heightfield

variable {heights : HeightMap} {p : TerrainParams} {b : Buffer} {n i : Nat}

/-- The blocks of a chunk that begins at a world height, from the surface
heights of its columns. -/
def strata (p : TerrainParams) (c : Coord) (n : Nat) (columns : List Int32)
    (low : Int) : Buffer :=
  ⟨c, .cube p.chunkSize, Array.ofFn fun i : Fin n =>
    stratum p (columns.toArray.getD (i.val % (Dims.cube p.chunkSize).layer)
      0).toInt (low + i.val / (Dims.cube p.chunkSize).layer)⟩

/-- What went well when a chunk was made. -/
theorem of_generate_eq_ok {c : Coord} {chunk : Chunk}
    (h : generate heights p c = .ok chunk) : ∃ n corner columns,
      (Dims.cube p.chunkSize).allocate = .ok n
        ∧ Buffer.base c (.cube p.chunkSize) = .ok corner
        ∧ surfaces heights p corner = .ok columns
        ∧ chunk = .ofBuffer (strata p c n columns corner.y.toInt)
          .incomplete := by
  unfold generate at h
  split at h
  · cases h
  · obtain ⟨b, hcontent, h⟩ := exists_of_bind_eq_ok h
    cases h
    obtain ⟨n, hallocate, hrest⟩ :=
      exists_of_bind_eq_ok (of_orFault_eq_ok hcontent)
    obtain ⟨corner, hcorner, hrest⟩ := exists_of_bind_eq_ok hrest
    obtain ⟨columns, hcolumns, hrest⟩ := exists_of_bind_eq_ok hrest
    cases hrest
    exact ⟨n, corner, columns, hallocate, hcorner, hcolumns, rfl⟩

theorem grown_of_generate {c : Coord} {chunk : Chunk}
    (h : generate heights p c = .ok chunk) :
    ∃ b, chunk.Grown c p.chunkSize .incomplete b := by
  obtain ⟨n, corner, columns, hallocate, -, -, rfl⟩ := of_generate_eq_ok h
  exact ⟨_, rfl, rfl, rfl,
    Buffer.full_of_allocate hallocate c Array.size_ofFn⟩

/-! ## Sand -/

/-- The block with the number is grass, and water lies one layer further. -/
def Submerged (b : Buffer) (i : Nat) : Prop :=
  b.blocks[i]? = some .grass ∧ b.blocks[i + b.dims.layer]? = some .water

instance : Decidable (Submerged b i) := inferInstanceAs (Decidable (_ ∧ _))

theorem isSubmerged_cell (hx : 0 < b.dims.x)
    (hfits : b.blocks.size < Size.limit)
    (h : i + b.dims.layer < b.blocks.size) :
    isSubmerged b (b.dims.cell i) = .ok (decide (Submerged b i)) := by
  have hi : i < b.blocks.size := by omega
  have hhere : b.get (b.dims.cell i) = .ok b.blocks[i] :=
    Buffer.get_of_index (Dims.index_cell hx (Nat.lt_trans hi hfits))
      (Array.getElem?_eq_getElem hi)
  have habove : b.get (b.dims.cell i).above
      = .ok b.blocks[i + b.dims.layer] :=
    Buffer.get_of_index (Dims.index_above hx (Nat.lt_trans h hfits))
      (Array.getElem?_eq_getElem h)
  have hsubmerged : decide (Submerged b i) = (b.blocks[i] == .grass
      && b.blocks[i + b.dims.layer] == .water) := by
    simp only [Submerged, Array.getElem?_eq_getElem hi,
      Array.getElem?_eq_getElem h, Option.some.injEq, Bool.decide_and]
    rfl
  rw [isSubmerged, hhere, habove, hsubmerged]
  by_cases hgrass : b.blocks[i] = .grass
  · simp [bind, Except.bind, hgrass, pure, Except.pure]
  · simp [bind, Except.bind, hgrass, pure, Except.pure]

/-- The buffer after the pass has been at a number. -/
def layAt (b : Buffer) (i : Nat) : Buffer :=
  if Submerged b i then b.put i .sand else b

theorem sameShape_layAt (b : Buffer) (i : Nat) : SameShape b (layAt b i) := by
  unfold layAt
  split
  · exact Buffer.sameShape_put b i .sand
  · exact .refl b

theorem getElem?_layAt (b : Buffer) (i j : Nat) :
    (layAt b i).blocks[j]?
      = if j = i ∧ Submerged b j then some .sand else b.blocks[j]? := by
  unfold layAt
  by_cases hsubmerged : Submerged b i
  · have hi : i < b.blocks.size :=
      (Array.getElem?_eq_some_iff.1 hsubmerged.1).1
    rw [if_pos hsubmerged, Buffer.put, Array.getElem?_setIfInBounds]
    by_cases hj : j = i
    · rw [if_pos hj.symm, if_pos hi, if_pos ⟨hj, hj ▸ hsubmerged⟩]
    · rw [if_neg (Ne.symm hj), if_neg fun h => hj h.1]
  · rw [if_neg hsubmerged, if_neg]
    rintro ⟨rfl, h⟩
    exact hsubmerged h

/-- What lies ahead of the pass is as it was. -/
theorem submerged_layAt {j : Nat} (h : i < j) :
    Submerged (layAt b i) j ↔ Submerged b j := by
  have hdims := (sameShape_layAt b i).dims
  rw [Submerged, Submerged, getElem?_layAt, getElem?_layAt, hdims,
    if_neg (by omega), if_neg (by omega)]

theorem layFrom_succ (hx : 0 < b.dims.x)
    (hfits : b.blocks.size < Size.limit)
    (h : i + b.dims.layer < b.blocks.size) :
    layFrom (n + 1) i b = layFrom n (i + 1) (layAt b i) := by
  rw [layFrom, isSubmerged_cell hx hfits h, layAt]
  by_cases hsubmerged : Submerged b i
  · rw [decide_eq_true hsubmerged, if_pos hsubmerged]
  · rw [decide_eq_false hsubmerged, if_neg hsubmerged]

theorem sameShape_layFrom (n i : Nat) (b : Buffer) :
    SameShape b (layFrom n i b).1 := by
  induction n generalizing i b with
  | zero => exact .refl b
  | succ n ih =>
    simp only [layFrom]
    split
    · exact .refl b
    · exact (Buffer.sameShape_put b i .sand).trans (ih (i + 1) _)
    · exact ih (i + 1) b

/-- As long as every cell it looks at has one above it, the pass goes through,
and what it leaves is read off the buffer it began with: it writes behind
itself only, and it reads ahead. -/
theorem layFrom_spec (hx : 0 < b.dims.x) (hfits : b.blocks.size < Size.limit)
    (h : i + n + b.dims.layer ≤ b.blocks.size) :
    (layFrom n i b).2 = .ok () ∧ ∀ j, (layFrom n i b).1.blocks[j]?
      = if (i ≤ j ∧ j < i + n) ∧ Submerged b j then some .sand
        else b.blocks[j]? := by
  induction n generalizing i b with
  | zero =>
    refine ⟨rfl, fun j => ?_⟩
    rw [if_neg (by omega)]
    rfl
  | succ n ih =>
    have hshape := sameShape_layAt b i
    rw [layFrom_succ hx hfits (by omega)]
    obtain ⟨hok, hblocks⟩ := ih (b := layAt b i) (i := i + 1)
      (by rwa [hshape.dims]) (by rwa [hshape.size])
      (by rw [hshape.dims, hshape.size]; omega)
    refine ⟨hok, fun j => ?_⟩
    rw [hblocks, getElem?_layAt]
    rcases Nat.lt_trichotomy j i with hlt | rfl | hgt
    · rw [if_neg (by omega), if_neg (by omega), if_neg (by omega)]
    · rw [if_neg (by omega)]
      simp
    · have hrange : (i + 1 ≤ j ∧ j < i + 1 + n) ↔ i ≤ j ∧ j < i + (n + 1) := by
        omega
      have hj : ¬(j = i ∧ Submerged b j) := fun h => by omega
      simp only [submerged_layAt hgt, hrange, if_neg hj]

theorem sameShape_laySand (b : Buffer) : SameShape b (laySand b).1 :=
  sameShape_layFrom _ _ b

/-- In a buffer with all its blocks the pass goes through to the end.  It lays
sand on the grass that was under water to begin with, in all layers but the
highest, and leaves every other block as it was. -/
theorem laySand_spec (hb : b.Full) :
    (laySand b).2 = .ok () ∧ ∀ j, (laySand b).1.blocks[j]?
      = if j < b.dims.layer * (b.dims.y - 1) ∧ Submerged b j then some .sand
        else b.blocks[j]? := by
  unfold laySand
  rcases Nat.eq_zero_or_pos (b.dims.layer * (b.dims.y - 1)) with hnone | hsome
  · rw [hnone]
    refine ⟨rfl, fun j => ?_⟩
    rw [if_neg (by omega)]
    rfl
  · have hx : 0 < b.dims.x :=
      Nat.pos_of_mul_pos_right (Nat.pos_of_mul_pos_right hsome)
    have hy : b.dims.y - 1 + 1 = b.dims.y :=
      Nat.sub_add_cancel (Nat.le_of_lt (Nat.lt_of_sub_pos
        (Nat.pos_of_mul_pos_left hsome)))
    -- the highest layer is left out, so that every cell has one above it
    have hblocks : b.dims.layer * (b.dims.y - 1) + b.dims.layer
        = b.blocks.size := by
      rw [← Nat.mul_succ, Nat.succ_eq_add_one, hy, hb.blocks, Dims.layer,
        Nat.mul_right_comm]
    obtain ⟨hok, hlaid⟩ := layFrom_spec (i := 0) hx hb.fits
      (show 0 + b.dims.layer * (b.dims.y - 1) + b.dims.layer ≤ b.blocks.size
        by omega)
    refine ⟨hok, fun j => ?_⟩
    simpa using hlaid j

/-- Finishing lays sand in the content and leaves all else alone. -/
theorem fst_finish {chunk : Chunk} (h : chunk.content = some b) :
    (finish chunk).1 = { chunk with content := some (laySand b).1 } := by
  simp only [finish, h]

theorem snd_finish_of_full {chunk : Chunk} (h : chunk.content = some b)
    (hb : b.Full) : (finish chunk).2 = .ok .complete := by
  simp only [finish, h, (laySand_spec hb).1]

end Heightfield

end ChunkStream
