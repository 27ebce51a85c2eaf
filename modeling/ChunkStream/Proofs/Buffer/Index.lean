import ChunkStream.Buffer

/-!
# The linear index

The index of a cell is a number, computed with checked arithmetic.  The checks
pass for every cell of a buffer that has all its blocks, since each product on
the way is at most the index itself; so a cell and the one above it can be read
as long as their numbers are below the number of blocks.
-/

namespace ChunkStream

theorem Size.add_eq {a b : Nat} (h : a + b < limit) : add a b = .ok (a + b) :=
  if_pos h

theorem Size.mul_eq {a b : Nat} (h : a * b < limit) : mul a b = .ok (a * b) :=
  if_pos h

theorem Size.mul_eq_ok_iff {a b n : Nat} :
    mul a b = .ok n ↔ a * b < limit ∧ n = a * b := by
  unfold mul
  split
  · next h =>
    rw [Except.ok.injEq, eq_comm]
    exact (and_iff_right h).symm
  · next h => simp [h]

namespace Dims

variable {d : Dims} {p : Cell} {i n : Nat}

/-- The volume can be computed when the product of the first two dimensions is a
size and the volume is: a third dimension of zero comes too late. -/
theorem volume_eq_ok_iff :
    d.volume = .ok n ↔ d.x * d.y < Size.limit
      ∧ d.x * d.y * d.z < Size.limit ∧ n = d.x * d.y * d.z := by
  constructor
  · intro h
    obtain ⟨area, harea, hvolume⟩ := exists_of_bind_eq_ok h
    obtain ⟨hxy, rfl⟩ := Size.mul_eq_ok_iff.1 harea
    exact ⟨hxy, Size.mul_eq_ok_iff.1 hvolume⟩
  · rintro ⟨hxy, hvolume⟩
    rw [volume, Size.mul_eq hxy]
    exact Size.mul_eq_ok_iff.2 hvolume

theorem allocate_eq_ok_iff :
    d.allocate = .ok n ↔ d.volume = .ok n ∧ 4 * n ≤ maxBytes := by
  constructor
  · intro h
    obtain ⟨m, hvolume, h⟩ := exists_of_bind_eq_ok h
    split at h
    · next hbytes =>
      cases h
      exact ⟨hvolume, hbytes⟩
    · cases h
  · rintro ⟨hvolume, hbytes⟩
    rw [allocate, hvolume]
    exact if_pos hbytes

/-- What can be allocated is a whole number of blocks within the bound on
bytes. -/
theorem of_allocate_eq_ok (h : d.allocate = .ok n) :
    n = d.x * d.y * d.z ∧ 4 * n ≤ maxBytes := by
  obtain ⟨hvolume, hbytes⟩ := allocate_eq_ok_iff.1 h
  exact ⟨(volume_eq_ok_iff.1 hvolume).2.2, hbytes⟩

/-- The number of a cell: x fastest, then z, then y. -/
def number (d : Dims) (p : Cell) : Nat := (p.y * d.z + p.z) * d.x + p.x

/-- The index of a cell is its number when that is a size. -/
theorem index_eq (hx : 0 < d.x) (h : d.number p < Size.limit) :
    d.index p = .ok (d.number p) := by
  unfold number at h ⊢
  have hrow : p.y * d.z + p.z ≤ (p.y * d.z + p.z) * d.x :=
    Nat.le_mul_of_pos_right _ hx
  unfold index
  rw [Size.mul_eq (by omega)]
  simp only [bind, Except.bind]
  rw [Size.add_eq (by omega)]
  simp only
  rw [Size.mul_eq (by omega)]
  simp only
  exact Size.add_eq h

theorem row_cell (d : Dims) (i : Nat) :
    (d.cell i).y * d.z + (d.cell i).z = i / d.x := by
  show i / (d.x * d.z) * d.z + i / d.x % d.z = i / d.x
  rw [← Nat.div_div_eq_div_mul]
  exact Nat.div_add_mod' (i / d.x) d.z

@[simp]
theorem number_cell (d : Dims) (i : Nat) : d.number (d.cell i) = i := by
  rw [number, row_cell]
  exact Nat.div_add_mod' i d.x

/-- The cell above is one layer further. -/
@[simp]
theorem number_above (d : Dims) (p : Cell) :
    d.number p.above = d.number p + d.layer := by
  show ((p.y + 1) * d.z + p.z) * d.x + p.x
    = (p.y * d.z + p.z) * d.x + p.x + d.x * d.z
  simp only [Nat.succ_mul, Nat.add_mul, Nat.mul_comm d.z d.x]
  omega

/-- A number is the index of its cell. -/
theorem index_cell (hx : 0 < d.x) (h : i < Size.limit) :
    d.index (d.cell i) = .ok i := by
  rw [index_eq hx (by rwa [number_cell]), number_cell]

theorem index_above (hx : 0 < d.x) (h : i + d.layer < Size.limit) :
    d.index (d.cell i).above = .ok (i + d.layer) := by
  have hnumber : d.number (d.cell i).above = i + d.layer := by
    rw [number_above, number_cell]
  rw [index_eq hx (by rwa [hnumber]), hnumber]

end Dims

namespace Buffer

variable {b : Buffer} {i : Nat}

/-- A buffer with a block for each of its cells. -/
structure Full (b : Buffer) : Prop where
  blocks : b.blocks.size = b.dims.x * b.dims.y * b.dims.z
  fits : b.blocks.size < Size.limit

/-- The buffers differ in their blocks at most. -/
structure SameShape (b next : Buffer) : Prop where
  coord : next.coord = b.coord
  dims : next.dims = b.dims
  size : next.blocks.size = b.blocks.size

protected theorem SameShape.refl (b : Buffer) : SameShape b b := ⟨rfl, rfl, rfl⟩

protected theorem SameShape.trans {next last : Buffer} (h : SameShape b next)
    (h' : SameShape next last) : SameShape b last :=
  ⟨h'.coord.trans h.coord, h'.dims.trans h.dims, h'.size.trans h.size⟩

theorem sameShape_put (b : Buffer) (i : Nat) (block : Block) :
    SameShape b (b.put i block) :=
  ⟨rfl, rfl, by simp [put]⟩

theorem sameShape_set {next : Buffer} {p : Cell} {block : Block}
    (h : b.set p block = .ok next) : SameShape b next := by
  obtain ⟨i, -, h⟩ := exists_of_bind_eq_ok h
  split at h
  · cases h
    exact sameShape_put b i block
  · cases h

theorem Full.congr {next : Buffer} (hb : b.Full) (h : SameShape b next) :
    next.Full where
  blocks := by rw [h.size, h.dims, hb.blocks]
  fits := by
    rw [h.size]
    exact hb.fits

theorem get_of_index {p : Cell} {block : Block}
    (hindex : b.dims.index p = .ok i) (h : b.blocks[i]? = some block) :
    b.get p = .ok block := by
  simp [get, hindex, getIndex, h, bind, Except.bind]

end Buffer

end ChunkStream
