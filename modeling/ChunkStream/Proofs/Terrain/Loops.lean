import ChunkStream.Proofs.Buffer.Laying
import ChunkStream.Proofs.Terrain.Layers
import ChunkStream.Proofs.Terrain.Finishing
import ChunkStream.Proofs.Terrain.Seams

/-!
# Terrain laid block by block

The content of a chunk has been given number by number.  Here it is laid as a
builder would, in nested loops that write to a buffer of air and compute the
height of a block when they come to it.  The outcome is the same, and so is the
fault when a height or a position is no word: the checks made beforehand fail
exactly when one of the loops comes to a number that is none.
-/

namespace ChunkStream

open Buffer (Laid SameShape)

variable {c corner : Coord} {low : Int32} {b : Buffer} {cause : Fault}
  {s x y z k : Nat}

/-! ## Heights -/

theorem Word.toInt_add_toWord {height : Int32} (hs : s < 2147483648)
    (hy : y < s) (h : Word.add low (Size.toWord y) = .ok height) :
    height.toInt = low.toInt + y := by
  rw [Word.add, Word.exactly_eq_ok_iff, Size.toInt_toWord (by omega)] at h
  exact h

theorem Word.exists_add_zero (low : Int32) :
    ∃ height, Word.add low (Size.toWord 0) = .ok height := by
  have hlow := fits_toInt low
  rw [add, exists_exactly_iff, Size.toInt_toWord (by omega)]
  simpa using hlow

/-- Below the highest layer all heights are words when its own is. -/
theorem Word.exists_add_toWord {top : Int32} (hs : s < 2147483648)
    (htop : Word.add low (Size.toWord (s - 1)) = .ok top) (hy : y < s) :
    ∃ height, Word.add low (Size.toWord y) = .ok height := by
  have htop' : top.toInt = low.toInt + (s - 1 : Nat) :=
    toInt_add_toWord hs (by omega) htop
  have hlow := (fits_toInt low).1
  have hhigh := (fits_toInt top).2
  rw [add, exists_exactly_iff, Size.toInt_toWord (by omega), Fits]
  omega

/-- When the highest layer has no height, one layer is the first without. -/
theorem Word.exists_first_overflow (hs : s < 2147483648) (hsome : 0 < s)
    (htop : Word.add low (Size.toWord (s - 1)) = .error cause) :
    ∃ m < s, Word.add low (Size.toWord m) = .error cause
      ∧ ∀ k < m, ∃ height, Word.add low (Size.toWord k) = .ok height := by
  have hlow := fits_toInt low
  rw [add, exactly_eq_error_iff, Size.toInt_toWord (by omega)] at htop
  simp only [Fits] at hlow htop
  refine ⟨(2147483648 - low.toInt).toNat, by omega, ?_, fun k hk => ?_⟩
  · rw [add, exactly_eq_error_iff, Size.toInt_toWord (by omega), Fits]
    exact ⟨by omega, htop.2⟩
  · rw [add, exists_exactly_iff, Size.toInt_toWord (by omega), Fits]
    omega

theorem Cell.within_column (hk : k < s * s) (hy : y < s) :
    Cell.Within ⟨k % s, y, k / s⟩ (.cube s) where
  x := Nat.mod_lt k (Nat.zero_lt_of_lt hy)
  y := hy
  z := Nat.div_lt_of_lt_mul hk

/-- The number of a column within its layer tells which column it is. -/
theorem Cell.eq_column_iff {q : Cell} (hx : q.x < s) :
    q = ⟨k % s, y, k / s⟩ ↔ q.y = y ∧ q.z * s + q.x = k := by
  obtain ⟨hdiv, hmod⟩ := Dims.digit_div_mod (a := q.z) hx
  constructor
  · rintro rfl
    exact ⟨rfl, Nat.div_add_mod' k s⟩
  · rintro ⟨rfl, rfl⟩
    rw [hdiv, hmod]

/-! ## Flat terrain -/

namespace Flat

variable {f : Flat}

/-- One layer: stone at all its cells, unless its height is in the air. -/
def layLayer (f : Flat) (low : Int32) (y : Nat) (b : Buffer) :
    Except Fault Buffer := do
  let height ← Word.add low (Size.toWord y)
  if height < 0 ∨ f.thickness ≤ height then return b
  upTo f.size (fun z => upTo f.size fun x b => b.set ⟨x, y, z⟩ .stone) b

def lay (f : Flat) (c : Coord) : Except Fault Chunk := do
  let b ← Buffer.air c (.cube f.size)
  let corner ← Buffer.base c (.cube f.size)
  let b ← upTo f.size (f.layLayer corner.y) b
  return Chunk.ofBuffer b f.completion

/-- What a buffer holds once the layers below a height are done, and the columns
of that layer below a number. -/
def Risen (f : Flat) (c : Coord) (low : Int32) (y k : Nat) (b : Buffer) :
    Prop :=
  Laid c (.cube f.size) (fun p => f.blockAt (low.toInt + p.y))
    (fun p => p.y < y ∨ p.y = y ∧ p.z * f.size + p.x < k) b

theorem exists_setColumn (hk : k < f.size * f.size) (hy : y < f.size)
    (h : f.Risen c low y k b) :
    ∃ next, b.set ⟨k % f.size, y, k / f.size⟩ (f.blockAt (low.toInt + y))
        = .ok next ∧ f.Risen c low y (k + 1) next := by
  apply h.exists_set (Cell.within_column hk hy)
  intro q hq
  rw [Cell.eq_column_iff (s := f.size) hq.x]
  omega

/-- The columns of a layer are filled one after the other. -/
theorem exists_fill (hy : y < f.size) (h : f.Risen c low y 0 b) :
    ∃ next, upTo f.size (fun z => upTo f.size fun x b =>
        b.set ⟨x, y, z⟩ (f.blockAt (low.toInt + y))) b = .ok next
      ∧ f.Risen c low (y + 1) 0 next := by
  rw [upTo_mul]
  obtain ⟨next, hnext, hrisen⟩ :=
    exists_upTo h fun k hk b hb => exists_setColumn hk hy hb
  refine ⟨next, hnext, hrisen.congr fun p hp => ?_⟩
  have hcolumn : p.z * f.size + p.x < f.size * f.size :=
    Dims.digit_lt hp.z hp.x
  omega

theorem exists_layLayer {height : Int32} (hs : f.size < 2147483648)
    (hy : y < f.size) (hheight : Word.add low (Size.toWord y) = .ok height)
    (h : f.Risen c low y 0 b) :
    ∃ next, f.layLayer low y b = .ok next ∧ f.Risen c low (y + 1) 0 next := by
  have hexact := Word.toInt_add_toWord hs hy hheight
  simp only [layLayer, hheight, bind, Except.bind, Int32.lt_iff_toInt_lt,
    Int32.le_iff_toInt_le]
  by_cases hstone : 0 ≤ low.toInt + y ∧ low.toInt + y < f.thickness.toInt
  · have hblock : Block.stone = f.blockAt (low.toInt + y) :=
      (if_pos hstone).symm
    rw [if_neg (by simp; omega), hblock]
    exact exists_fill hy h
  · rw [if_pos (by simp; omega)]
    refine ⟨b, rfl, h.widen (fun p _ hp => by omega) fun p _ hp hopen => ?_⟩
    obtain rfl : p.y = y := by omega
    exact if_neg hstone

/-- All layers are laid when the highest has a height. -/
theorem exists_layLayers (hs : f.size < 2147483648)
    (htop : f.size ≠ 0 →
      ∃ top, Word.add low (Size.toWord (f.size - 1)) = .ok top)
    (h : f.Risen c low 0 0 b) :
    ∃ next, upTo f.size (f.layLayer low) b = .ok next
      ∧ f.Risen c low f.size 0 next := by
  apply exists_upTo (I := fun y => f.Risen c low y 0) h
  intro y hy b hb
  obtain ⟨top, htop⟩ := htop (Nat.ne_zero_of_lt hy)
  obtain ⟨height, hheight⟩ := Word.exists_add_toWord hs htop hy
  exact exists_layLayer hs hy hheight hb

/-- The first layer without a height ends the loop. -/
theorem layLayers_eq_error (hs : f.size < 2147483648) (hsome : 0 < f.size)
    (htop : Word.add low (Size.toWord (f.size - 1)) = .error cause)
    (h : f.Risen c low 0 0 b) :
    upTo f.size (f.layLayer low) b = .error cause := by
  obtain ⟨m, hm, hfirst, hbelow⟩ := Word.exists_first_overflow hs hsome htop
  apply upTo_eq_error (I := fun y => f.Risen c low y 0) hm h
  · intro y hy b hb
    obtain ⟨height, hheight⟩ := hbelow y hy
    exact exists_layLayer hs (Nat.lt_trans hy hm) hheight hb
  · intro b hb
    rw [layLayer, hfirst]
    rfl

/-- The loops end with the chunk, or with the fault, that the checks made
beforehand lead to. -/
theorem lay_eq_generate (f : Flat) (c : Coord) : f.lay c = f.generate c := by
  cases hallocate : (Dims.cube f.size).allocate with
  | error cause =>
    simp only [lay, generate, Buffer.air, hallocate, bind, Except.bind]
  | ok n =>
    cases hcorner : Buffer.base c (.cube f.size) with
    | error cause =>
      simp only [lay, generate, Buffer.air, hallocate, hcorner, bind,
        Except.bind, pure, Except.pure]
    | ok corner =>
      have hs := Dims.edge_lt_of_allocate hallocate
      have hblank : f.Risen c corner.y 0 0
          ⟨c, .cube f.size, Array.replicate n .air⟩ :=
        (Buffer.laid_air (Buffer.full_of_allocate hallocate c
          Array.size_replicate)).congr fun p _ => by simp
      have hlay : f.lay c = do
          let b ← upTo f.size (f.layLayer corner.y)
            ⟨c, .cube f.size, Array.replicate n .air⟩
          return Chunk.ofBuffer b f.completion := by
        simp only [lay, Buffer.air, hallocate, hcorner, bind, Except.bind,
          pure, Except.pure]
      by_cases htop : f.size ≠ 0 →
          ∃ top, Word.add corner.y (Size.toWord (f.size - 1)) = .ok top
      · have hfull : (f.layers c n corner.y.toInt).Full :=
          Buffer.full_of_allocate hallocate c Array.size_ofFn
        obtain ⟨b, hb, hrisen⟩ := exists_layLayers hs htop hblank
        obtain rfl := hrisen.eq_of_get (fun p hp => .inl hp.y) rfl rfl hfull
          fun p hp => get_layers hfull hp
        rw [hlay, hb, generate_eq_ok_iff.2
          ⟨n, corner, hallocate, hcorner, htop, rfl⟩]
        rfl
      · obtain ⟨hsome, htop⟩ := Classical.not_imp.1 htop
        cases hfault : Word.add corner.y (Size.toWord (f.size - 1)) with
        | ok top => exact absurd ⟨top, hfault⟩ htop
        | error cause =>
          rw [hlay, layLayers_eq_error hs (Nat.pos_of_ne_zero hsome) hfault
            hblank]
          simp only [generate, hallocate, hcorner, bind, Except.bind,
            if_pos hsome, hfault]

end Flat

/-! ## Heightfield terrain -/

namespace Heightfield

variable {heights : HeightMap} {p : TerrainParams} {surface' : Int32}

/-- The block at a height, all in words; `soil` is where dirt begins. -/
def choose (p : TerrainParams) (surface soil height : Int32) : Block :=
  if height < soil then Block.stone
  else if height < surface then Block.dirt
  else if height = surface then Block.grass
  else if height ≤ p.seaLevel then Block.water
  else Block.air

/-- One block of a column, unless it is air. -/
def layBlock (p : TerrainParams) (surface low : Int32) (x z y : Nat)
    (b : Buffer) : Except Fault Buffer := do
  let height ← Word.add low (Size.toWord y)
  let soil ← Word.sub surface p.dirtDepth
  let block := choose p surface soil height
  if block = Block.air then return b
  b.set ⟨x, y, z⟩ block

/-- What the height function says of a column of a chunk. -/
def columnHeight (heights : HeightMap) (corner : Coord) (x z : Nat) :
    Except Fault Int32 := do
  let wx ← Word.add corner.x (Size.toWord x)
  let wz ← Word.add corner.z (Size.toWord z)
  heights wx wz

/-- One column, from its lowest block to its highest. -/
def layColumn (heights : HeightMap) (p : TerrainParams) (corner : Coord)
    (z x : Nat) (b : Buffer) : Except Fault Buffer := do
  let surface ← columnHeight heights corner x z
  upTo p.chunkSize (layBlock p surface corner.y x z) b

def lay (heights : HeightMap) (p : TerrainParams) (c : Coord) :
    Except Fault Buffer := do
  let b ← Buffer.air c (.cube p.chunkSize)
  let corner ← Buffer.base c (.cube p.chunkSize)
  upTo p.chunkSize
    (fun z => upTo p.chunkSize (layColumn heights p corner z)) b

/-- The block of a cell, if its column has a height. -/
def blockOf (heights : HeightMap) (p : TerrainParams) (corner : Coord)
    (q : Cell) : Block :=
  match columnHeight heights corner q.x q.z with
  | .ok height => stratum p height.toInt (corner.y.toInt + q.y)
  | .error _ => .air

/-- What a buffer holds once the columns before one are done, and that column
below a height. -/
def Raised (heights : HeightMap) (p : TerrainParams) (c corner : Coord)
    (k y : Nat) (b : Buffer) : Prop :=
  Laid c (.cube p.chunkSize) (blockOf heights p corner)
    (fun q => q.z * p.chunkSize + q.x < k
      ∨ q.z * p.chunkSize + q.x = k ∧ q.y < y) b

theorem choose_eq {surface soil height : Int32}
    (hsoil : Word.sub surface p.dirtDepth = .ok soil) :
    choose p surface soil height
      = stratum p surface.toInt height.toInt := by
  rw [Word.sub, Word.exactly_eq_ok_iff] at hsoil
  simp only [choose, stratum, Int32.lt_iff_toInt_lt, Int32.le_iff_toInt_le,
    ← Int32.toInt_inj, hsoil]

theorem exists_layBlock {height soil : Int32}
    (hs : p.chunkSize < 2147483648) (hk : k < p.chunkSize * p.chunkSize)
    (hy : y < p.chunkSize)
    (hcolumn : columnHeight heights corner (k % p.chunkSize)
      (k / p.chunkSize) = .ok surface')
    (hheight : Word.add corner.y (Size.toWord y) = .ok height)
    (hsoil : Word.sub surface' p.dirtDepth = .ok soil)
    (h : Raised heights p c corner k y b) :
    ∃ next, layBlock p surface' corner.y (k % p.chunkSize) (k / p.chunkSize)
        y b = .ok next ∧ Raised heights p c corner k (y + 1) next := by
  have hblock : choose p surface' soil height = blockOf heights p corner
      ⟨k % p.chunkSize, y, k / p.chunkSize⟩ := by
    rw [choose_eq hsoil, Word.toInt_add_toWord hs hy hheight, blockOf, hcolumn]
  simp only [layBlock, hheight, hsoil, bind, Except.bind, hblock]
  split
  · next hair =>
    refine ⟨b, rfl, h.widen (fun q _ hq => by omega) fun q hq hdone hopen => ?_⟩
    obtain rfl : q = ⟨k % p.chunkSize, y, k / p.chunkSize⟩ :=
      (Cell.eq_column_iff (s := p.chunkSize) hq.x).2 (by omega)
    exact hair
  · apply h.exists_set (Cell.within_column hk hy)
    intro q hq
    rw [Cell.eq_column_iff (s := p.chunkSize) hq.x]
    omega

/-- What is checked of the height of a column before it is laid. -/
def check (p : TerrainParams) (low height : Int32) : Except Fault Int32 := do
  let _ ← Word.sub height p.dirtDepth
  let _ ← Word.add low (Size.toWord (p.chunkSize - 1))
  return height

theorem surface_eq : surface heights p corner x z
    = columnHeight heights corner x z >>= check p corner.y := by
  unfold surface columnHeight check
  simp only [bind_assoc]

theorem of_check_eq_ok {height : Int32}
    (h : check p low height = .ok surface') : surface' = height
      ∧ (∃ soil, Word.sub height p.dirtDepth = .ok soil)
      ∧ ∃ top, Word.add low (Size.toWord (p.chunkSize - 1)) = .ok top := by
  obtain ⟨soil, hsoil, h⟩ := exists_of_bind_eq_ok h
  obtain ⟨top, htop, h⟩ := exists_of_bind_eq_ok h
  cases h
  exact ⟨rfl, ⟨soil, hsoil⟩, top, htop⟩

theorem columnHeight_of_surface
    (h : surface heights p corner x z = .ok surface') :
    columnHeight heights corner x z = .ok surface' := by
  rw [surface_eq] at h
  obtain ⟨height, hcolumn, h⟩ := exists_of_bind_eq_ok h
  obtain ⟨rfl, -, -⟩ := of_check_eq_ok h
  exact hcolumn

/-- A column whose height passes the checks is laid. -/
theorem exists_layBlocks (hs : p.chunkSize < 2147483648)
    (hk : k < p.chunkSize * p.chunkSize)
    (hcolumn : columnHeight heights corner (k % p.chunkSize)
      (k / p.chunkSize) = .ok surface')
    (hcheck : check p corner.y surface' = .ok surface')
    (h : Raised heights p c corner k 0 b) :
    ∃ next, upTo p.chunkSize (layBlock p surface' corner.y (k % p.chunkSize)
        (k / p.chunkSize)) b = .ok next
      ∧ Raised heights p c corner k p.chunkSize next := by
  obtain ⟨-, ⟨soil, hsoil⟩, top, htop⟩ := of_check_eq_ok hcheck
  apply exists_upTo h
  intro y hy b hb
  obtain ⟨height, hheight⟩ := Word.exists_add_toWord hs htop hy
  exact exists_layBlock hs hk hy hcolumn hheight hsoil hb

/-- A height that does not pass ends the loop at the lowest block or at the
first one that is too high. -/
theorem layBlocks_eq_error (hs : p.chunkSize < 2147483648)
    (hk : k < p.chunkSize * p.chunkSize)
    (hcolumn : columnHeight heights corner (k % p.chunkSize)
      (k / p.chunkSize) = .ok surface')
    (hcheck : check p corner.y surface' = .error cause)
    (h : Raised heights p c corner k 0 b) :
    upTo p.chunkSize (layBlock p surface' corner.y (k % p.chunkSize)
      (k / p.chunkSize)) b = .error cause := by
  have hsome : 0 < p.chunkSize :=
    Nat.pos_of_mul_pos_left (Nat.zero_lt_of_lt hk)
  unfold check at hcheck
  cases hsoil : Word.sub surface' p.dirtDepth with
  | error cause' =>
    rw [hsoil] at hcheck
    cases hcheck
    obtain ⟨height, hheight⟩ := Word.exists_add_zero corner.y
    apply upTo_eq_error hsome h
    · intro y hy
      exact absurd hy (Nat.not_lt_zero y)
    · intro b hb
      rw [layBlock, hheight, hsoil]
      rfl
  | ok soil =>
    cases htop : Word.add corner.y (Size.toWord (p.chunkSize - 1)) with
    | ok top =>
      rw [hsoil, htop] at hcheck
      cases hcheck
    | error cause' =>
      rw [hsoil, htop] at hcheck
      cases hcheck
      obtain ⟨m, hm, hfirst, hbelow⟩ :=
        Word.exists_first_overflow hs hsome htop
      apply upTo_eq_error hm h
      · intro y hy b hb
        obtain ⟨height, hheight⟩ := hbelow y hy
        exact exists_layBlock hs hk (Nat.lt_trans hy hm) hcolumn hheight
          hsoil hb
      · intro b hb
        rw [layBlock, hfirst]
        rfl

theorem exists_layColumn (hs : p.chunkSize < 2147483648)
    (hk : k < p.chunkSize * p.chunkSize)
    (hsurface : surface heights p corner (k % p.chunkSize) (k / p.chunkSize)
      = .ok surface')
    (h : Raised heights p c corner k 0 b) :
    ∃ next, layColumn heights p corner (k / p.chunkSize) (k % p.chunkSize) b
        = .ok next ∧ Raised heights p c corner (k + 1) 0 next := by
  have hcolumn := columnHeight_of_surface hsurface
  have hcheck : check p corner.y surface' = .ok surface' := by
    rwa [surface_eq, hcolumn] at hsurface
  obtain ⟨next, hnext, hraised⟩ := exists_layBlocks hs hk hcolumn hcheck h
  refine ⟨next, ?_, hraised.congr fun q hq => ?_⟩
  · rw [layColumn, hcolumn]
    exact hnext
  · have hheight : q.y < p.chunkSize := hq.y
    omega

theorem layColumn_eq_error (hs : p.chunkSize < 2147483648)
    (hk : k < p.chunkSize * p.chunkSize)
    (hsurface : surface heights p corner (k % p.chunkSize) (k / p.chunkSize)
      = .error cause)
    (h : Raised heights p c corner k 0 b) :
    layColumn heights p corner (k / p.chunkSize) (k % p.chunkSize) b
      = .error cause := by
  rw [surface_eq] at hsurface
  rw [layColumn]
  cases hcolumn : columnHeight heights corner (k % p.chunkSize)
    (k / p.chunkSize) with
  | error cause' =>
    rw [hcolumn] at hsurface
    cases hsurface
    rfl
  | ok height =>
    rw [hcolumn] at hsurface
    exact layBlocks_eq_error hs hk hcolumn hsurface h

/-- All columns are laid when they have surfaces. -/
theorem exists_layColumns {columns : List Int32}
    (hs : p.chunkSize < 2147483648)
    (hcolumns : surfaces heights p corner = .ok columns)
    (h : Raised heights p c corner 0 0 b) :
    ∃ next, upTo p.chunkSize
        (fun z => upTo p.chunkSize (layColumn heights p corner z)) b = .ok next
      ∧ Raised heights p c corner (p.chunkSize * p.chunkSize) 0 next := by
  rw [upTo_mul]
  apply exists_upTo (I := fun k => Raised heights p c corner k 0) h
  intro k hk b hb
  obtain ⟨surface', hsurface, -⟩ :=
    exists_of_mapM_eq_ok hcolumns (List.getElem?_range hk)
  exact exists_layColumn hs hk hsurface hb

/-- The first column without a surface ends the loops. -/
theorem layColumns_eq_error (hs : p.chunkSize < 2147483648)
    (hcolumns : surfaces heights p corner = .error cause)
    (h : Raised heights p c corner 0 0 b) :
    upTo p.chunkSize (fun z => upTo p.chunkSize (layColumn heights p corner z))
      b = .error cause := by
  obtain ⟨m, m', hm, hfails, hbefore⟩ := exists_of_mapM_eq_error hcolumns
  obtain ⟨hlt, rfl⟩ : m < p.chunkSize * p.chunkSize ∧ m' = m := by
    obtain ⟨hlt, hm⟩ := List.getElem?_eq_some_iff.1 hm
    exact ⟨by simpa using hlt, by simpa using hm.symm⟩
  rw [upTo_mul]
  apply upTo_eq_error (I := fun k => Raised heights p c corner k 0) hlt h
  · intro k hk b hb
    have hlt' := Nat.lt_trans hk hlt
    obtain ⟨surface', hsurface⟩ :=
      hbefore k hk k (List.getElem?_range hlt')
    exact exists_layColumn hs hlt' hsurface hb
  · intro b hb
    exact layColumn_eq_error hs hlt hfails hb

/-- The loops end with the content, or with the fault, that come of the
surfaces computed beforehand. -/
theorem lay_eq_content (heights : HeightMap) (p : TerrainParams) (c : Coord) :
    lay heights p c = content heights p c := by
  cases hallocate : (Dims.cube p.chunkSize).allocate with
  | error cause =>
    simp only [lay, content, Buffer.air, hallocate, bind, Except.bind]
  | ok n =>
    cases hcorner : Buffer.base c (.cube p.chunkSize) with
    | error cause =>
      simp only [lay, content, Buffer.air, hallocate, hcorner, bind,
        Except.bind, pure, Except.pure]
    | ok corner =>
      have hs := Dims.edge_lt_of_allocate hallocate
      have hblank : Raised heights p c corner 0 0
          ⟨c, .cube p.chunkSize, Array.replicate n .air⟩ :=
        (Buffer.laid_air (Buffer.full_of_allocate hallocate c
          Array.size_replicate)).congr fun q _ => by simp
      have hlay : lay heights p c = upTo p.chunkSize
          (fun z => upTo p.chunkSize (layColumn heights p corner z))
          ⟨c, .cube p.chunkSize, Array.replicate n .air⟩ := by
        simp only [lay, Buffer.air, hallocate, hcorner, bind, Except.bind,
          pure, Except.pure]
      cases hcolumns : surfaces heights p corner with
      | error cause =>
        rw [hlay, layColumns_eq_error hs hcolumns hblank]
        simp only [content, hallocate, hcorner, hcolumns, bind, Except.bind]
      | ok columns =>
        have hfull : (strata p c n columns corner.y.toInt).Full :=
          Buffer.full_of_allocate hallocate c Array.size_ofFn
        obtain ⟨b, hb, hraised⟩ := exists_layColumns hs hcolumns hblank
        have hdone (q : Cell) (hq : q.Within (.cube p.chunkSize)) :
            q.z * p.chunkSize + q.x < p.chunkSize * p.chunkSize :=
          Dims.digit_lt hq.z hq.x
        obtain rfl := hraised.eq_of_get (fun q hq => .inl (hdone q hq)) rfl rfl
          hfull fun q hq => by
            obtain ⟨surface', hsurface, hcolumn⟩ :=
              surface_of_surfaces hcolumns hq.x hq.z
            rw [get_strata hfull hq hcolumn, blockOf,
              columnHeight_of_surface hsurface]
        rw [hlay, hb]
        simp only [content, hallocate, hcorner, hcolumns, bind, Except.bind]
        rfl

/-! ## Finishing -/

/-- Finishing at one cell. -/
def finishCell (q : Cell) (b : Buffer) : Except Fault Buffer := do
  if ← isSubmerged b q then b.set q .sand else return b

/-- Finishing in loops over the layers but the highest, their rows and the cells
of a row. -/
def sweep (b : Buffer) : Except Fault Buffer :=
  upTo (b.dims.y - 1) (fun y => upTo b.dims.z fun z => upTo b.dims.x fun x =>
    finishCell ⟨x, y, z⟩) b

theorem finishCell_cell (hb : b.Full)
    (hk : k < b.dims.layer * (b.dims.y - 1)) :
    finishCell (b.dims.cell k) b = .ok (layAt b k) := by
  have hlayer : b.dims.layer * (b.dims.y - 1) ≤ b.dims.x * b.dims.y * b.dims.z :=
    calc b.dims.layer * (b.dims.y - 1) ≤ b.dims.layer * b.dims.y :=
          Nat.mul_le_mul_left _ (Nat.sub_le _ 1)
      _ = b.dims.x * b.dims.y * b.dims.z := Nat.mul_right_comm ..
  have hcell : (b.dims.cell k).Within b.dims :=
    Dims.within_cell (Nat.lt_of_lt_of_le hk hlayer)
  have habove : (b.dims.cell k).above.Within b.dims := by
    rw [← Dims.number_cell b.dims k, Dims.number_lt_iff hcell] at hk
    exact Dims.within_above hcell hk
  have hnumber : k + b.dims.layer < b.blocks.size := by
    have hlt := hb.number_lt habove
    rwa [Dims.number_above, Dims.number_cell] at hlt
  rw [finishCell, isSubmerged_cell (Nat.zero_lt_of_lt hcell.x) hb.fits hnumber,
    layAt]
  by_cases hsubmerged : Submerged b k
  · rw [decide_eq_true hsubmerged, if_pos hsubmerged]
    show b.set (b.dims.cell k) .sand = _
    rw [hb.set_eq hcell, Dims.number_cell]
  · rw [decide_eq_false hsubmerged, if_neg hsubmerged]
    rfl

/-- The loops have met the cells below a number: what is behind them is
finished, what is ahead is as it was. -/
structure Passed (b : Buffer) (k : Nat) (mid : Buffer) : Prop where
  shape : SameShape b mid
  blocks : ∀ j, mid.blocks[j]?
    = if j < k ∧ Submerged b j then some .sand else b.blocks[j]?

theorem exists_finishCell {mid : Buffer} (hb : b.Full)
    (hk : k < b.dims.layer * (b.dims.y - 1)) (h : Passed b k mid) :
    ∃ next, finishCell (b.dims.cell k) mid = .ok next
      ∧ Passed b (k + 1) next := by
  have hahead : Submerged mid k ↔ Submerged b k := by
    rw [Submerged, h.blocks, h.blocks, h.shape.dims, if_neg (by omega),
      if_neg (by omega), Submerged]
  refine ⟨layAt mid k, ?_, h.shape.trans (sameShape_layAt mid k), fun j => ?_⟩
  · rw [← h.shape.dims] at hk ⊢
    exact finishCell_cell (hb.congr h.shape) hk
  · rw [getElem?_layAt, h.blocks]
    rcases Nat.lt_trichotomy j k with hlt | rfl | hgt
    · rw [if_neg (by omega)]
      simp only [hlt, Nat.lt_succ_of_lt hlt]
    · simp [hahead]
    · rw [if_neg (by omega), if_neg (by omega), if_neg (by omega)]

/-- The loops leave what the pass along the numbers leaves. -/
theorem sweep_eq_laySand (hb : b.Full) : sweep b = .ok (laySand b).1 := by
  have hstart : Passed b 0 b :=
    ⟨.refl b, fun j => (if_neg fun h => Nat.not_lt_zero j h.1).symm⟩
  obtain ⟨next, hnext, hpassed⟩ := exists_upTo hstart
    fun k hk mid hmid => exists_finishCell hb hk hmid
  have hlaid := sameShape_laySand b
  have hshape : SameShape (laySand b).1 next :=
    ⟨hpassed.shape.coord.trans hlaid.coord.symm,
      hpassed.shape.dims.trans hlaid.dims.symm,
      hpassed.shape.size.trans hlaid.size.symm⟩
  have hblocks : next.blocks = (laySand b).1.blocks := by
    apply Array.ext_getElem?
    intro j
    rw [hpassed.blocks, (laySand_spec hb).2]
  rw [sweep, upTo_cells, hnext, hshape.eq_of_blocks hblocks]

end Heightfield

end ChunkStream
