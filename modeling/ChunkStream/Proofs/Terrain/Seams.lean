import ChunkStream.Proofs.Terrain.Layers

/-!
# Terrain without seams

A chunk is cut out of terrain that is there whatever the chunks are: the block
at a position of the world depends on the position alone.  So chunks agree
wherever they overlap, also chunks of different edges, and a column goes through
all chunks of a stack in the same layers.
-/

namespace ChunkStream

namespace Heightfield

variable {heights : HeightMap} {p : TerrainParams} {c corner : Coord}
  {chunk : Chunk} {b : Buffer} {cell : Cell} {columns : List Int32}
  {x z : Nat}

/-- A column, by its position over the integers, has the surface height. -/
def SurfaceAt (heights : HeightMap) (x z : Int) (surface : Int32) : Prop :=
  ∃ wx wz : Int32, wx.toInt = x ∧ wz.toInt = z
    ∧ heights wx wz = .ok surface

theorem surfaceAt_toInt_iff {wx wz surface : Int32} :
    SurfaceAt heights wx.toInt wz.toInt surface
      ↔ heights wx wz = .ok surface := by
  constructor
  · rintro ⟨wx', wz', hx, hz, hsurface⟩
    obtain rfl := Int32.toInt_inj.1 hx
    obtain rfl := Int32.toInt_inj.1 hz
    exact hsurface
  · exact fun hsurface => ⟨wx, wz, rfl, rfl, hsurface⟩

theorem SurfaceAt.unique {x z : Int} {surface surface' : Int32}
    (h : SurfaceAt heights x z surface) (h' : SurfaceAt heights x z surface') :
    surface = surface' := by
  obtain ⟨wx, wz, rfl, rfl, hsurface⟩ := h
  rw [surfaceAt_toInt_iff, hsurface] at h'
  exact Except.ok.inj h'

/-- The block that the terrain has at a position. -/
def Ground (heights : HeightMap) (p : TerrainParams) (w : Site)
    (block : Block) : Prop :=
  ∃ surface, SurfaceAt heights w.x w.z surface
    ∧ block = stratum p surface.toInt w.y

theorem Ground.unique {w : Site} {block block' : Block}
    (h : Ground heights p w block) (h' : Ground heights p w block') :
    block = block' := by
  obtain ⟨surface, hsurface, rfl⟩ := h
  obtain ⟨surface', hsurface', rfl⟩ := h'
  rw [hsurface.unique hsurface']

/-! ## Columns -/

/-- A column stands over its exact world position. -/
theorem surfaceAt_of_surface {surface' : Int32}
    (hs : p.chunkSize < 2147483648)
    (hx : x < p.chunkSize) (hz : z < p.chunkSize)
    (h : surface heights p corner x z = .ok surface') :
    SurfaceAt heights (corner.x.toInt + x) (corner.z.toInt + z) surface' := by
  obtain ⟨wx, hwx, h⟩ := exists_of_bind_eq_ok h
  obtain ⟨wz, hwz, h⟩ := exists_of_bind_eq_ok h
  obtain ⟨height, hheight, h⟩ := exists_of_bind_eq_ok h
  obtain ⟨_, -, h⟩ := exists_of_bind_eq_ok h
  obtain ⟨_, -, h⟩ := exists_of_bind_eq_ok h
  cases h
  rw [Word.add, Word.exactly_eq_ok_iff, Size.toInt_toWord (by omega)] at hwx hwz
  exact ⟨wx, wz, hwx, hwz, hheight⟩

theorem surface_of_surfaces (h : surfaces heights p corner = .ok columns)
    (hx : x < p.chunkSize) (hz : z < p.chunkSize) :
    ∃ surface', surface heights p corner x z = .ok surface'
      ∧ columns[z * p.chunkSize + x]? = some surface' := by
  have hk : z * p.chunkSize + x < p.chunkSize * p.chunkSize :=
    Dims.digit_lt hz hx
  obtain ⟨surface', hsurface, hcolumn⟩ :=
    exists_of_mapM_eq_ok h (List.getElem?_range hk)
  rw [(Dims.digit_div_mod hx).1, (Dims.digit_div_mod hx).2] at hsurface
  exact ⟨surface', hsurface, hcolumn⟩

theorem get_strata {n : Nat} {low : Int} {surface' : Int32}
    (hfull : (strata p c n columns low).Full)
    (hcell : cell.Within (.cube p.chunkSize))
    (hcolumn : columns[cell.z * p.chunkSize + cell.x]? = some surface') :
    (strata p c n columns low).get cell
      = .ok (stratum p surface'.toInt (low + cell.y)) := by
  obtain ⟨hlayer, hrest⟩ := Dims.number_div_mod_layer hcell
  have hheight : ((Dims.cube p.chunkSize).number cell : Int)
      / ((Dims.cube p.chunkSize).layer : Nat) = cell.y := by
    rw [← Int.natCast_ediv, hlayer]
  have hsurface : columns.toArray.getD ((Dims.cube p.chunkSize).number cell
      % (Dims.cube p.chunkSize).layer) 0 = surface' := by
    rw [hrest, Array.getD_eq_getD_getElem?, List.getElem?_toArray]
    show (columns[cell.z * p.chunkSize + cell.x]?).getD 0 = surface'
    rw [hcolumn]
    rfl
  have hblock := Buffer.get_ofFn (f := fun i : Nat => stratum p
    (columns.toArray.getD (i % (Dims.cube p.chunkSize).layer) 0).toInt
    (low + i / (Dims.cube p.chunkSize).layer)) hfull hcell
  rwa [hsurface, hheight] at hblock

/-- Each block of a chunk is that of its position. -/
theorem get_of_generate (h : generate heights p c = .ok chunk)
    (hgrown : chunk.Grown c p.chunkSize .incomplete b)
    (hcell : cell.Within (.cube p.chunkSize)) :
    ∃ block, b.get cell = .ok block
      ∧ Ground heights p ((Dims.cube p.chunkSize).site c cell) block := by
  obtain ⟨n, corner, columns, hallocate, hcorner, hcolumns, hchunk⟩ :=
    of_generate_eq_ok h
  have hs := Dims.edge_lt_of_allocate hallocate
  obtain ⟨hx, hy, hz⟩ := (Buffer.base_cube_eq_ok_iff hs).1 hcorner
  obtain ⟨surface', hsurface, hcolumn⟩ :=
    surface_of_surfaces hcolumns hcell.x hcell.z
  have hcolumn' := surfaceAt_of_surface hs hcell.x hcell.z hsurface
  obtain rfl := hgrown.eq_of_ofBuffer hchunk
  have hget := get_strata hgrown.full hcell hcolumn
  rw [hx, hz] at hcolumn'
  refine ⟨_, hget, surface', hcolumn', ?_⟩
  rw [hy]
  rfl

/-! ## Layers of a column -/

/-- A block of a column with a surface height, layer by layer. -/
structure Layered (p : TerrainParams) (surface height : Int)
    (block : Block) : Prop where
  stone : block = .stone ↔ height < surface - p.dirtDepth.toInt
  dirt : block = .dirt
    ↔ surface - p.dirtDepth.toInt ≤ height ∧ height < surface
  grass : block = .grass ↔ height = surface
  water : block = .water ↔ surface < height ∧ height ≤ p.seaLevel.toInt
  air : block = .air ↔ surface < height ∧ p.seaLevel.toInt < height

/-- Which layer a height is in; a negative depth of dirt lifts the stone over
the others. -/
theorem stratum_iff (p : TerrainParams) (surface height : Int) :
    (stratum p surface height = .stone
        ↔ height < surface - p.dirtDepth.toInt)
      ∧ (stratum p surface height = .dirt
        ↔ surface - p.dirtDepth.toInt ≤ height ∧ height < surface)
      ∧ (stratum p surface height = .grass
        ↔ surface - p.dirtDepth.toInt ≤ height ∧ height = surface)
      ∧ (stratum p surface height = .water
        ↔ surface - p.dirtDepth.toInt ≤ height ∧ surface < height
          ∧ height ≤ p.seaLevel.toInt)
      ∧ (stratum p surface height = .air
        ↔ surface - p.dirtDepth.toInt ≤ height ∧ surface < height
          ∧ p.seaLevel.toInt < height) := by
  unfold stratum
  split_ifs
  all_goals
    simp [Block.stone, Block.dirt, Block.grass, Block.water, Block.air]
    omega

theorem layered_stratum (hdirt : 0 ≤ p.dirtDepth.toInt)
    (surface height : Int) :
    Layered p surface height (stratum p surface height) := by
  obtain ⟨hstone, hsoil, hgrass, hwater, hair⟩ := stratum_iff p surface height
  exact ⟨hstone, hsoil, hgrass.trans (by omega), hwater.trans (by omega),
    hair.trans (by omega)⟩

end Heightfield

/-! ## Chunks of different edges -/

theorem Chunk.get_of_content {chunk : Chunk} {b : Buffer} {p : Cell}
    {block : Block} (hcontent : chunk.content = some b)
    (h : b.get p = .ok block) : chunk.get p = .ok (some block) := by
  simp [Chunk.get, hcontent, h, Functor.map, Except.map]

/-- The two kinds of terrain, whatever the edge of the chunks. -/
inductive Terrain
  | flat (thickness : Int32) (completion : Completion)
  | heightfield (heights : Heightfield.HeightMap) (p : TerrainParams)

namespace Terrain

open Heightfield (HeightMap)

/-- The terrain in chunks of an edge. -/
def cut (edge : Nat) : Terrain → Generator
  | flat thickness completion => Flat.generator ⟨edge, thickness, completion⟩
  | heightfield heights p =>
      Heightfield.ofHeights heights { p with chunkSize := edge }

example (p : TerrainParams) (s : Nat) :
    (heightfield (Heightfield.noiseHeight p) p).cut s
      = Heightfield.generator { p with chunkSize := s } := rfl

/-- The block that the terrain has at a position. -/
def Ground : Terrain → Site → Block → Prop
  | flat thickness completion, w, block =>
      block = Flat.blockAt ⟨0, thickness, completion⟩ w.y
  | heightfield heights p, w, block => Heightfield.Ground heights p w block

variable {t : Terrain} {s : Nat} {c : Coord} {chunk : Chunk} {cell : Cell}

theorem Ground.unique {w : Site} {block block' : Block}
    (h : t.Ground w block) (h' : t.Ground w block') : block = block' := by
  cases t with
  | flat thickness completion => exact Eq.trans h (Eq.symm h')
  | heightfield heights p => exact Heightfield.Ground.unique h h'

/-- A chunk is cut out of the terrain. -/
theorem get_of_cut (h : (t.cut s).generate c = .ok chunk)
    (hcell : cell.Within (.cube s)) :
    ∃ block, chunk.get cell = .ok (some block)
      ∧ t.Ground ((Dims.cube s).site c cell) block := by
  cases t with
  | flat thickness completion =>
    have hmade := of_orFault_eq_ok h
    obtain ⟨b, hgrown⟩ := Flat.grown_of_generate hmade
    have hget := Flat.get_of_generate hmade hgrown hcell
    obtain rfl := hgrown.chunk
    exact ⟨_, Chunk.get_of_content rfl hget, rfl⟩
  | heightfield heights p =>
    obtain ⟨b, hgrown⟩ := Heightfield.grown_of_generate h
    obtain ⟨block, hget, hground⟩ :=
      Heightfield.get_of_generate h hgrown hcell
    obtain rfl := hgrown.chunk
    exact ⟨block, Chunk.get_of_content rfl hget, hground⟩

theorem layered_of_cut {heights : HeightMap} {p : TerrainParams} {x z : Int32}
    (hdirt : 0 ≤ p.dirtDepth.toInt)
    (h : ((heightfield heights p).cut s).generate c = .ok chunk)
    (hcell : cell.Within (.cube s))
    (hx : ((Dims.cube s).site c cell).x = x.toInt)
    (hz : ((Dims.cube s).site c cell).z = z.toInt) :
    ∃ surface block, heights x z = .ok surface
      ∧ chunk.get cell = .ok (some block) ∧ Heightfield.Layered p
        surface.toInt ((Dims.cube s).site c cell).y block := by
  obtain ⟨block, hblock, surface, hsurface, rfl⟩ := get_of_cut h hcell
  rw [hx, hz, Heightfield.surfaceAt_toInt_iff] at hsurface
  exact ⟨surface, _, hsurface, hblock,
    Heightfield.layered_stratum hdirt _ _⟩

/-- Terrain has no seams.  Two chunks of any edges hold the same block wherever
they overlap; and with no negative depth of dirt, a column of a heightfield has
one surface, and every chunk that it goes through holds the layers that belong
to it. -/
theorem seamless :
    (∀ (t : Terrain) (s₁ s₂ : Nat) (c₁ c₂ : Coord) (chunk₁ chunk₂ : Chunk),
      (t.cut s₁).generate c₁ = .ok chunk₁ →
      (t.cut s₂).generate c₂ = .ok chunk₂ →
      ∀ p₁ p₂, p₁.Within (.cube s₁) → p₂.Within (.cube s₂) →
        (Dims.cube s₁).site c₁ p₁ = (Dims.cube s₂).site c₂ p₂ →
        ∃ block, chunk₁.get p₁ = .ok (some block)
          ∧ chunk₂.get p₂ = .ok (some block))
    ∧ ∀ (heights : HeightMap) (p : TerrainParams), 0 ≤ p.dirtDepth.toInt →
      ∀ x z : Int32, ∃ surface : Int32,
        ∀ (s : Nat) (c : Coord) (chunk : Chunk) (cell : Cell),
          ((heightfield heights p).cut s).generate c = .ok chunk →
          cell.Within (.cube s) → ((Dims.cube s).site c cell).x = x.toInt →
          ((Dims.cube s).site c cell).z = z.toInt →
          heights x z = .ok surface ∧ ∃ block,
            chunk.get cell = .ok (some block) ∧ Heightfield.Layered p
              surface.toInt ((Dims.cube s).site c cell).y block := by
  constructor
  · intro t s₁ s₂ c₁ c₂ chunk₁ chunk₂ h₁ h₂ p₁ p₂ hp₁ hp₂ hsite
    obtain ⟨block, hblock, hground⟩ := get_of_cut h₁ hp₁
    obtain ⟨block', hblock', hground'⟩ := get_of_cut h₂ hp₂
    rw [← hsite] at hground'
    obtain rfl := hground.unique hground'
    exact ⟨block, hblock, hblock'⟩
  · intro heights p hdirt x z
    cases hsurface : heights x z with
    | ok surface =>
      refine ⟨surface, fun s c chunk cell h hcell hx hz => ⟨rfl, ?_⟩⟩
      obtain ⟨surface', block, hsurface', hblock⟩ :=
        layered_of_cut hdirt h hcell hx hz
      rw [hsurface] at hsurface'
      cases hsurface'
      exact ⟨block, hblock⟩
    | error cause =>
      -- no chunk goes through a column without a surface
      refine ⟨0, fun s c chunk cell h hcell hx hz => ?_⟩
      obtain ⟨_, _, hsurface', -⟩ := layered_of_cut hdirt h hcell hx hz
      rw [hsurface] at hsurface'
      cases hsurface'

/-- Ground that rises along the first axis, out of the sea. -/
def slope : Terrain :=
  heightfield (fun x _ => .ok x) { seaLevel := 4, dirtDepth := 1 }

/-- A chunk of edge two and one of edge three hold the same water where they
overlap. -/
theorem seamless_of_slope :
    ∃ small large, (slope.cut 2).generate ⟨1, 1, 1⟩ = .ok small
      ∧ (slope.cut 3).generate ⟨0, 1, 0⟩ = .ok large
      ∧ (Dims.cube 2).site ⟨1, 1, 1⟩ ⟨0, 1, 0⟩
        = (Dims.cube 3).site ⟨0, 1, 0⟩ ⟨2, 0, 2⟩
      ∧ small.get ⟨0, 1, 0⟩ = .ok (some .water)
      ∧ large.get ⟨2, 0, 2⟩ = .ok (some .water) := by
  obtain ⟨small, hsmall⟩ : ∃ small,
      (slope.cut 2).generate ⟨1, 1, 1⟩ = .ok small := ⟨_, rfl⟩
  obtain ⟨large, hlarge⟩ : ∃ large,
      (slope.cut 3).generate ⟨0, 1, 0⟩ = .ok large := ⟨_, rfl⟩
  have hlow : Cell.Within ⟨0, 1, 0⟩ (.cube 2) :=
    ⟨by decide, by decide, by decide⟩
  have hhigh : Cell.Within ⟨2, 0, 2⟩ (.cube 3) :=
    ⟨by decide, by decide, by decide⟩
  obtain ⟨hagree, hlayers⟩ := seamless
  obtain ⟨surface, hcolumn⟩ := hlayers (fun x _ => .ok x)
    { seaLevel := 4, dirtDepth := 1 } (by decide) 2 2
  obtain ⟨hsurface, block, hblock, hlayer⟩ :=
    hcolumn 2 ⟨1, 1, 1⟩ small ⟨0, 1, 0⟩ hsmall hlow rfl rfl
  cases hsurface
  obtain rfl : block = .water := hlayer.water.2 (by decide)
  obtain ⟨block', hsmall', hlarge'⟩ := hagree slope 2 3 ⟨1, 1, 1⟩ ⟨0, 1, 0⟩
    small large hsmall hlarge _ _ hlow hhigh rfl
  rw [hblock] at hsmall'
  cases hsmall'
  exact ⟨small, large, hsmall, hlarge, rfl, hblock, hlarge'⟩

end Terrain

end ChunkStream
