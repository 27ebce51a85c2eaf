import ChunkStream.Proofs.Terrain.Finishing
import ChunkStream.Proofs.Terrain.Seams

/-!
# The shore

Generated grass lies on the surface of its column, and water lies right above it
when the surface is below sea level.  Finishing sees one chunk at a time: it
turns this grass to sand unless the surface is in the highest layer of its
chunk.  There the water is in the chunk above, and the grass stays.
-/

namespace ChunkStream

/-- The coordinate right above another one. -/
theorem Coord.of_offset_above {c d : Coord} (h : c.offset 0 1 0 = .ok d) :
    d.x = c.x ∧ d.y.toInt = c.y.toInt + 1 ∧ d.z = c.z := by
  obtain ⟨x, hx, h⟩ := exists_of_bind_eq_ok h
  obtain ⟨y, hy, h⟩ := exists_of_bind_eq_ok h
  obtain ⟨z, hz, h⟩ := exists_of_bind_eq_ok h
  cases h
  simp only [Word.add, Word.exactly_eq_ok_iff] at hx hy hz
  refine ⟨Int32.toInt_inj.1 ?_, hy, Int32.toInt_inj.1 ?_⟩
  · simpa using hx
  · simpa using hz

namespace Heightfield

variable {heights : HeightMap} {p : TerrainParams} {c : Coord} {chunk : Chunk}
  {cell : Cell} {surface : Int32}

/-- The surface of a column is grass, and it lies under water. -/
def Drowned (p : TerrainParams) (surface : Int32) : Prop :=
  0 ≤ p.dirtDepth.toInt ∧ surface.toInt < p.seaLevel.toInt

instance (p : TerrainParams) (surface : Int32) :
    Decidable (Drowned p surface) :=
  inferInstanceAs (Decidable (_ ∧ _))

/-- The block of a finished chunk at a height, in a layer that is covered by
another one of the chunk or is not. -/
def finishedStratum (p : TerrainParams) (covered : Prop) [Decidable covered]
    (surface : Int32) (height : Int) : Block :=
  if covered ∧ Drowned p surface ∧ height = surface.toInt then .sand
  else stratum p surface.toInt height

theorem finishedStratum_eq_grass_iff {covered : Prop} [Decidable covered]
    {height : Int} : finishedStratum p covered surface height = .grass
      ↔ height = surface.toInt ∧ 0 ≤ p.dirtDepth.toInt
        ∧ ¬(covered ∧ Drowned p surface) := by
  unfold finishedStratum
  split
  · next hsand =>
    have hcovered : covered ∧ Drowned p surface := ⟨hsand.1, hsand.2.1⟩
    exact iff_of_false (by decide) fun h => h.2.2 hcovered
  · next hsand =>
    rw [(stratum_iff p _ _).2.2.1]
    constructor
    · rintro ⟨hdirt, hheight⟩
      exact ⟨hheight, by omega, fun h => hsand ⟨h.1, h.2, hheight⟩⟩
    · rintro ⟨hheight, hdirt, -⟩
      exact ⟨by omega, hheight⟩

theorem finishedStratum_eq_water_iff {covered : Prop} [Decidable covered]
    {height : Int} : finishedStratum p covered surface height = .water
      ↔ surface.toInt - p.dirtDepth.toInt ≤ height ∧ surface.toInt < height
        ∧ height ≤ p.seaLevel.toInt := by
  unfold finishedStratum
  split
  · next hsand => exact iff_of_false (by decide) fun h => by omega
  · exact (stratum_iff p _ _).2.2.2.1

/-- Every column of a chunk has a surface. -/
theorem exists_surfaceAt (h : generate heights p c = .ok chunk)
    (hcell : cell.Within (.cube p.chunkSize)) :
    ∃ surface, SurfaceAt heights (c.x.toInt * p.chunkSize + cell.x)
      (c.z.toInt * p.chunkSize + cell.z) surface := by
  obtain ⟨b, hgrown⟩ := grown_of_generate h
  obtain ⟨_, -, surface, hsurface, -⟩ := get_of_generate h hgrown hcell
  exact ⟨surface, hsurface⟩

/-- A block of a finished chunk.  Grass has become sand where it lies under
water and the chunk has a layer above it. -/
theorem get_finish (h : generate heights p c = .ok chunk)
    (hcell : cell.Within (.cube p.chunkSize))
    (hsurface : SurfaceAt heights (c.x.toInt * p.chunkSize + cell.x)
      (c.z.toInt * p.chunkSize + cell.z) surface) :
    (finish chunk).1.get cell = .ok (some
      (finishedStratum p (cell.y + 1 < p.chunkSize) surface
        (c.y.toInt * p.chunkSize + cell.y))) := by
  obtain ⟨b, hgrown⟩ := grown_of_generate h
  have hget (cell' : Cell) (hcell' : cell'.Within (.cube p.chunkSize))
      (hx : cell'.x = cell.x) (hz : cell'.z = cell.z) : b.get cell'
        = .ok (stratum p surface.toInt
          (c.y.toInt * p.chunkSize + cell'.y)) := by
    obtain ⟨block, hblock, surface', hsurface', rfl⟩ :=
      get_of_generate h hgrown hcell'
    rw [← hx, ← hz] at hsurface
    rw [hblock, hsurface.unique hsurface']
    rfl
  have hlaid : (cell.y + 1 < p.chunkSize ∧ stratum p surface.toInt
        (c.y.toInt * p.chunkSize + cell.y) = .grass
        ∧ b.get cell.above = .ok .water)
      ↔ cell.y + 1 < p.chunkSize ∧ Drowned p surface
        ∧ c.y.toInt * p.chunkSize + cell.y = surface.toInt := by
    apply and_congr_right
    intro hy
    have hlayer : c.y.toInt * p.chunkSize + cell.above.y
        = c.y.toInt * p.chunkSize + cell.y + 1 := by
      simp only [Cell.above]
      omega
    rw [hget cell.above (Dims.within_above hcell hy) rfl rfl,
      Except.ok.injEq, (stratum_iff p _ _).2.2.1,
      (stratum_iff p _ _).2.2.2.1, hlayer, Drowned]
    omega
  have hsand := get_laySand hgrown.full (hgrown.dims ▸ hcell)
    (hget cell hcell rfl rfl)
  simp only [hgrown.dims, Dims.cube_y, hlaid] at hsand
  obtain rfl := hgrown.chunk
  rw [fst_finish rfl]
  exact Chunk.get_of_content rfl hsand

theorem snd_finish (h : generate heights p c = .ok chunk) :
    (finish chunk).2 = .ok .complete := by
  obtain ⟨b, hgrown⟩ := grown_of_generate h
  obtain rfl := hgrown.chunk
  exact snd_finish_of_full rfl hgrown.full

/-- Where grass stays under water.  Of a chunk and the one above it, both
finished, a column has grass in the highest layer below and water in the lowest
layer above exactly when its surface is in that highest layer and lies under
water.  Within a chunk no grass is right below water, and every other surface
block that lies under water is sand. -/
theorem grass_left_under_water_iff {d : Coord} {lower upper : Chunk}
    (hd : c.offset 0 1 0 = .ok d)
    (hlower : generate heights p c = .ok lower)
    (hupper : generate heights p d = .ok upper) :
    (finish lower).2 = .ok .complete ∧ (finish upper).2 = .ok .complete
      ∧ ∀ x z, x < p.chunkSize → z < p.chunkSize → ∃ surface,
        SurfaceAt heights (c.x.toInt * p.chunkSize + x)
          (c.z.toInt * p.chunkSize + z) surface
        ∧ ((finish lower).1.get ⟨x, p.chunkSize - 1, z⟩ = .ok (some .grass)
            ∧ (finish upper).1.get ⟨x, 0, z⟩ = .ok (some .water)
          ↔ Drowned p surface ∧ surface.toInt
            = c.y.toInt * p.chunkSize + p.chunkSize - 1)
        ∧ (∀ y, y + 1 < p.chunkSize →
          ¬((finish lower).1.get ⟨x, y, z⟩ = .ok (some .grass)
            ∧ (finish lower).1.get ⟨x, y + 1, z⟩ = .ok (some .water)))
        ∧ ∀ y, y < p.chunkSize → Drowned p surface →
          surface.toInt = c.y.toInt * p.chunkSize + y →
          (finish lower).1.get ⟨x, y, z⟩ = .ok (some
            (if y + 1 < p.chunkSize then .sand else .grass)) := by
  obtain ⟨hdx, hdy, hdz⟩ := Coord.of_offset_above hd
  refine ⟨snd_finish hlower, snd_finish hupper, fun x z hx hz => ?_⟩
  have hlowest : 0 < p.chunkSize := Nat.zero_lt_of_lt hx
  have hcell (y : Nat) (hy : y < p.chunkSize) :
      Cell.Within ⟨x, y, z⟩ (.cube p.chunkSize) := ⟨hx, hy, hz⟩
  obtain ⟨surface, hsurface⟩ := exists_surfaceAt hlower (hcell 0 hlowest)
  have hbelow (y : Nat) (hy : y < p.chunkSize) :=
    get_finish hlower (hcell y hy) hsurface
  have habove := get_finish hupper (hcell 0 hlowest) (by rwa [hdx, hdz])
  refine ⟨surface, hsurface, ?_, fun y hy => ?_, fun y hy hdrowned hheight => ?_⟩
  · -- the highest layer is not covered, and the one above it is next to it
    have hhighest : p.chunkSize - 1 < p.chunkSize := by omega
    rw [hbelow _ hhighest, habove, hdy, Int.add_mul]
    simp only [Except.ok.injEq, Option.some.injEq, Drowned,
      finishedStratum_eq_grass_iff, finishedStratum_eq_water_iff]
    omega
  · rintro ⟨hgrass, hwater⟩
    rw [hbelow y (by omega)] at hgrass
    rw [hbelow (y + 1) hy] at hwater
    simp only [Except.ok.injEq, Option.some.injEq, Drowned,
      finishedStratum_eq_grass_iff, finishedStratum_eq_water_iff]
      at hgrass hwater
    omega
  · rw [hbelow y hy, finishedStratum]
    by_cases hcovered : y + 1 < p.chunkSize
    · rw [if_pos ⟨hcovered, hdrowned, hheight.symm⟩, if_pos hcovered]
    · have hdirt := hdrowned.1
      rw [if_neg fun h => hcovered h.1, if_neg hcovered,
        (stratum_iff p _ _).2.2.1.2 ⟨by omega, hheight.symm⟩]

/-- Level ground in the highest layer of its chunks, one layer below the sea. -/
def floodplain : TerrainParams := { chunkSize := 2, seaLevel := 2 }

/-- The plain stays green under water. -/
theorem grass_left_under_water_iff_of_floodplain :
    ∃ lower upper, Coord.origin.offset 0 1 0 = .ok ⟨0, 1, 0⟩
      ∧ generate (fun _ _ => .ok 1) floodplain .origin = .ok lower
      ∧ generate (fun _ _ => .ok 1) floodplain ⟨0, 1, 0⟩ = .ok upper
      ∧ (finish lower).1.get ⟨1, 1, 1⟩ = .ok (some .grass)
      ∧ (finish upper).1.get ⟨1, 0, 1⟩ = .ok (some .water) := by
  obtain ⟨lower, hlower⟩ : ∃ lower,
      generate (fun _ _ => .ok 1) floodplain .origin = .ok lower := ⟨_, rfl⟩
  obtain ⟨upper, hupper⟩ : ∃ upper,
      generate (fun _ _ => .ok 1) floodplain ⟨0, 1, 0⟩ = .ok upper := ⟨_, rfl⟩
  have habove : Coord.origin.offset 0 1 0 = .ok ⟨0, 1, 0⟩ := rfl
  obtain ⟨-, -, hcolumns⟩ := grass_left_under_water_iff habove hlower hupper
  obtain ⟨surface, hsurface, hleft, -⟩ :=
    hcolumns 1 1 (by decide) (by decide)
  obtain rfl : surface = 1 := hsurface.unique ⟨1, 1, rfl, rfl, rfl⟩
  obtain ⟨hgrass, hwater⟩ := hleft.2 (by decide)
  exact ⟨lower, upper, habove, hlower, hupper, hgrass, hwater⟩

end Heightfield

end ChunkStream
