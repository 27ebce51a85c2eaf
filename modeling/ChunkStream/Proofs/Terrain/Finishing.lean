import ChunkStream.Proofs.Buffer.Cells
import ChunkStream.Proofs.Terrain.Sand

/-!
# Finishing as one rewrite

Finishing works in place and reads the buffer that it writes to.  A block is
looked at before anything above it could have been touched, and sand is neither
grass nor water; so what comes of the pass is the same as if all blocks were
rewritten at once, and a second pass finds nothing to do.
-/

namespace ChunkStream

namespace Heightfield

variable {b : Buffer} {p : Cell} {block : Block} {j : Nat}

theorem submerged_number_iff (hb : b.Full) (hp : p.Within b.dims)
    (habove : p.y + 1 < b.dims.y) :
    Submerged b (b.dims.number p)
      ↔ b.get p = .ok .grass ∧ b.get p.above = .ok .water := by
  rw [Submerged, hb.get_eq_ok_iff hp,
    hb.get_eq_ok_iff (Dims.within_above hp habove), Dims.number_above]

/-- The block at a cell afterwards, in terms of the buffer before. -/
theorem get_laySand (hb : b.Full) (hp : p.Within b.dims)
    (hblock : b.get p = .ok block) :
    (laySand b).1.get p = .ok (if p.y + 1 < b.dims.y ∧ block = .grass
      ∧ b.get p.above = .ok .water then .sand else block) := by
  have hshape := sameShape_laySand b
  have hnext : (laySand b).1.Full := hb.congr hshape
  have hold : b.blocks[b.dims.number p]? = some block :=
    (hb.get_eq_ok_iff hp).1 hblock
  rw [hnext.get_eq_ok_iff (by rwa [hshape.dims]), hshape.dims,
    (laySand_spec hb).2, hold]
  by_cases habove : p.y + 1 < b.dims.y
  · have hlaid : (b.dims.number p < b.dims.layer * (b.dims.y - 1)
        ∧ Submerged b (b.dims.number p)) ↔ p.y + 1 < b.dims.y
          ∧ block = .grass ∧ b.get p.above = .ok .water := by
      rw [Dims.number_lt_iff hp, submerged_number_iff hb hp habove, hblock,
        Except.ok.injEq]
    simp only [hlaid]
    split <;> rfl
  · have hhigh : ¬b.dims.number p < b.dims.layer * (b.dims.y - 1) := by
      rwa [Dims.number_lt_iff hp]
    rw [if_neg fun h => hhigh h.1, if_neg fun h => habove h.1]

/-- No grass is left under water below the highest layer. -/
theorem not_submerged_laySand (hb : b.Full)
    (hj : j < b.dims.layer * (b.dims.y - 1)) :
    ¬Submerged (laySand b).1 j := by
  rintro ⟨hgrass, hwater⟩
  have hlaid := (laySand_spec hb).2
  rw [(sameShape_laySand b).dims, hlaid] at hwater
  rw [hlaid] at hgrass
  -- only sand is new, so that grass and water were there before
  split at hgrass
  · cases hgrass
  · next hdry =>
    split at hwater
    · cases hwater
    · exact hdry ⟨hj, hgrass, hwater⟩

/-- A second pass finds nothing to do. -/
theorem laySand_laySand (hb : b.Full) :
    laySand (laySand b).1 = ((laySand b).1, .ok ()) := by
  have hdims := (sameShape_laySand b).dims
  obtain ⟨hok, hlaid⟩ := laySand_spec (hb.congr (sameShape_laySand b))
  have hblocks : (laySand (laySand b).1).1.blocks = (laySand b).1.blocks := by
    apply Array.ext_getElem?
    intro j
    rw [hlaid, if_neg]
    rintro ⟨hj, hsubmerged⟩
    rw [hdims] at hj
    exact not_submerged_laySand hb hj hsubmerged
  exact Prod.ext ((sameShape_laySand _).eq_of_blocks hblocks) hok

theorem finish_eq {chunk : Chunk} (hcontent : chunk.content = some b)
    (hb : b.Full) :
    finish chunk
      = ({ chunk with content := some (laySand b).1 }, .ok .complete) :=
  Prod.ext (fst_finish hcontent) (snd_finish_of_full hcontent hb)

/-- Finishing goes through for every chunk that has a block for each cell.  It
replaces exactly the grass below water by sand, as the content was before, keeps
shape and coordinate, and changes nothing when done again. -/
theorem finish_rewrites_at_once {chunk : Chunk}
    (hcontent : chunk.content = some b) (hb : b.Full) :
    ∃ next, finish chunk = ({ chunk with content := some next }, .ok .complete)
      ∧ next.coord = b.coord ∧ next.dims = b.dims
      ∧ next.blocks.size = b.blocks.size
      ∧ (∀ p, p.Within b.dims → ∃ block, b.get p = .ok block
        ∧ next.get p = .ok (if p.y + 1 < b.dims.y ∧ block = .grass
          ∧ b.get p.above = .ok .water then .sand else block))
      ∧ finish (finish chunk).1 = finish chunk := by
  have hshape := sameShape_laySand b
  have hfinish := finish_eq hcontent hb
  refine ⟨(laySand b).1, hfinish, hshape.coord, hshape.dims, hshape.size,
    fun p hp => ?_, ?_⟩
  · obtain ⟨block, hblock⟩ := hb.exists_get hp
    exact ⟨block, hblock, get_laySand hb hp hblock⟩
  · have hcontent' : (finish chunk).1.content = some (laySand b).1 := by
      rw [hfinish]
    rw [finish_eq hcontent' (hb.congr hshape), laySand_laySand hb, hfinish]

/-- Two pools in one column: each loses its grass, and the grass on top has
nothing above it. -/
def pools : Buffer :=
  ⟨.origin, ⟨1, 5, 1⟩, #[.grass, .water, .grass, .water, .grass]⟩

theorem finish_rewrites_at_once_of_pools :
    pools.Full ∧ ∃ next, (finish (.ofBuffer pools .incomplete)).1.content
        = some next
      ∧ next.get ⟨0, 0, 0⟩ = .ok .sand ∧ next.get ⟨0, 2, 0⟩ = .ok .sand
      ∧ next.get ⟨0, 4, 0⟩ = .ok .grass := by
  have hfull : pools.Full := ⟨rfl, by decide⟩
  have hcontent : (Chunk.ofBuffer pools .incomplete).content = some pools := rfl
  obtain ⟨next, hfinish, -, -, -, hblocks, -⟩ :=
    finish_rewrites_at_once hcontent hfull
  have hgrass (p : Cell) (hp : p.Within pools.dims)
      (hold : pools.get p = .ok .grass) : next.get p
        = .ok (if p.y + 1 < pools.dims.y ∧ pools.get p.above = .ok .water
          then .sand else .grass) := by
    obtain ⟨block, hblock, hnext⟩ := hblocks p hp
    rw [hold] at hblock
    cases hblock
    simpa using hnext
  refine ⟨hfull, next, by rw [hfinish], ?_, ?_, ?_⟩
  · exact hgrass ⟨0, 0, 0⟩ ⟨by decide, by decide, by decide⟩ rfl
  · exact hgrass ⟨0, 2, 0⟩ ⟨by decide, by decide, by decide⟩ rfl
  · exact hgrass ⟨0, 4, 0⟩ ⟨by decide, by decide, by decide⟩ rfl

end Heightfield

end ChunkStream
