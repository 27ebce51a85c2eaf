import ChunkStream.Proofs.Buffer.Index

/-!
# The cells of a box

The number of a cell is written in the mixed radix of the dimensions, so the
cells of a box and the numbers below its volume are in one-to-one
correspondence.  In a buffer with all its blocks the checked index of a cell is
its number: every cell can be read, and what is read is the block with that
number.
-/

namespace ChunkStream

/-- The cell lies in the box. -/
structure Cell.Within (p : Cell) (d : Dims) : Prop where
  x : p.x < d.x
  y : p.y < d.y
  z : p.z < d.z

instance (p : Cell) (d : Dims) : Decidable (p.Within d) :=
  decidable_of_iff (p.x < d.x ∧ p.y < d.y ∧ p.z < d.z)
    ⟨fun ⟨x, y, z⟩ => ⟨x, y, z⟩, fun ⟨x, y, z⟩ => ⟨x, y, z⟩⟩

namespace Dims

variable {d : Dims} {p q : Cell} {i n : Nat}

/-- A digit below the radix, after a number below the bound. -/
theorem digit_lt {a b m r : Nat} (ha : a < m) (hb : b < r) :
    a * r + b < m * r :=
  calc a * r + b < a * r + r := Nat.add_lt_add_left hb _
    _ = (a + 1) * r := (Nat.succ_mul a r).symm
    _ ≤ m * r := Nat.mul_le_mul_right r ha

theorem digit_div_mod {a b r : Nat} (hb : b < r) :
    (a * r + b) / r = a ∧ (a * r + b) % r = b := by
  rw [Nat.mul_comm, Nat.mul_add_div (Nat.zero_lt_of_lt hb),
    Nat.div_eq_of_lt hb, Nat.mul_add_mod, Nat.mod_eq_of_lt hb]
  exact ⟨rfl, rfl⟩

theorem number_lt (h : p.Within d) : d.number p < d.x * d.y * d.z :=
  calc d.number p < d.y * d.z * d.x := digit_lt (digit_lt h.y h.z) h.x
    _ = d.x * d.y * d.z := by rw [Nat.mul_comm, Nat.mul_assoc]

theorem cell_number (h : p.Within d) : d.cell (d.number p) = p := by
  obtain ⟨hrow, hx⟩ : d.number p / d.x = p.y * d.z + p.z
      ∧ d.number p % d.x = p.x := digit_div_mod h.x
  obtain ⟨hy, hz⟩ : (p.y * d.z + p.z) / d.z = p.y
      ∧ (p.y * d.z + p.z) % d.z = p.z := digit_div_mod h.z
  show Cell.mk (d.number p % d.x) (d.number p / (d.x * d.z))
    (d.number p / d.x % d.z) = p
  rw [← Nat.div_div_eq_div_mul, hrow, hx, hy, hz]

/-- The number of a cell by layers, and by columns within its layer. -/
theorem number_div_mod_layer (h : p.Within d) :
    d.number p / d.layer = p.y
      ∧ d.number p % d.layer = p.z * d.x + p.x := by
  have hnumber : d.number p = p.y * d.layer + (p.z * d.x + p.x) := by
    rw [number, layer, Nat.add_mul, Nat.mul_assoc, Nat.mul_comm d.z,
      Nat.add_assoc]
  have hcolumn : p.z * d.x + p.x < d.layer := by
    rw [layer, Nat.mul_comm d.x]
    exact digit_lt h.z h.x
  rw [hnumber]
  exact digit_div_mod hcolumn

theorem within_cell (h : i < d.x * d.y * d.z) : (d.cell i).Within d := by
  have hvolume : 0 < d.x * d.y * d.z := Nat.zero_lt_of_lt h
  have hx : 0 < d.x :=
    Nat.pos_of_mul_pos_right (Nat.pos_of_mul_pos_right hvolume)
  have hz : 0 < d.z := Nat.pos_of_mul_pos_left hvolume
  refine ⟨Nat.mod_lt i hx, ?_, Nat.mod_lt _ hz⟩
  show i / (d.x * d.z) < d.y
  rw [Nat.div_lt_iff_lt_mul (Nat.mul_pos hx hz)]
  calc i < d.x * d.y * d.z := h
    _ = d.y * (d.x * d.z) := by rw [Nat.mul_comm d.x, Nat.mul_assoc]

/-- The cells of a box have different numbers. -/
theorem number_inj (hp : p.Within d) (hq : q.Within d)
    (h : d.number p = d.number q) : p = q := by
  rw [← cell_number hp, h, cell_number hq]

/-- The cells below the highest layer are the first ones. -/
theorem number_lt_iff (h : p.Within d) :
    d.number p < d.layer * (d.y - 1) ↔ p.y + 1 < d.y := by
  have hlayer : 0 < d.layer :=
    Nat.mul_pos (Nat.zero_lt_of_lt h.x) (Nat.zero_lt_of_lt h.z)
  rw [Nat.mul_comm, ← Nat.div_lt_iff_lt_mul hlayer,
    (number_div_mod_layer h).1]
  omega

theorem within_above (h : p.Within d) (habove : p.y + 1 < d.y) :
    p.above.Within d :=
  ⟨h.x, habove, h.z⟩

theorem index_of_within (h : p.Within d)
    (hfits : d.x * d.y * d.z ≤ Size.limit) :
    d.index p = .ok (d.number p) :=
  index_eq (Nat.zero_lt_of_lt h.x) (Nat.lt_of_lt_of_le (number_lt h) hfits)

end Dims

namespace Buffer

variable {b : Buffer} {p q : Cell} {block : Block}

theorem Full.number_lt (hb : b.Full) (hp : p.Within b.dims) :
    b.dims.number p < b.blocks.size := by
  rw [hb.blocks]
  exact Dims.number_lt hp

/-- Reading a cell gives the block with its number. -/
theorem Full.get_eq_ok_iff (hb : b.Full) (hp : p.Within b.dims) :
    b.get p = .ok block ↔ b.blocks[b.dims.number p]? = some block := by
  have hfits : b.dims.x * b.dims.y * b.dims.z ≤ Size.limit := by
    rw [← hb.blocks]
    exact Nat.le_of_lt hb.fits
  rw [get, Dims.index_of_within hp hfits]
  show b.getIndex (b.dims.number p) = .ok block ↔ _
  unfold getIndex
  cases b.blocks[b.dims.number p]? with
  | none => simp
  | some block' => simp

theorem Full.exists_get (hb : b.Full) (hp : p.Within b.dims) :
    ∃ block, b.get p = .ok block :=
  ⟨_, (hb.get_eq_ok_iff hp).2 (Array.getElem?_eq_getElem (hb.number_lt hp))⟩

theorem Full.set_eq (hb : b.Full) (hp : p.Within b.dims) :
    b.set p block = .ok (b.put (b.dims.number p) block) := by
  have hfits : b.dims.x * b.dims.y * b.dims.z ≤ Size.limit := by
    rw [← hb.blocks]
    exact Nat.le_of_lt hb.fits
  rw [set, Dims.index_of_within hp hfits]
  exact if_pos (hb.number_lt hp)

/-- Writing a cell changes what is read there, and nothing else. -/
theorem Full.get_put (hb : b.Full) (hp : p.Within b.dims)
    (hq : q.Within b.dims) :
    (b.put (b.dims.number p) block).get q
      = if q = p then .ok block else b.get q := by
  obtain ⟨old, hold⟩ := hb.exists_get hq
  have hblocks := (hb.get_eq_ok_iff hq).1 hold
  have hnext : (b.put (b.dims.number p) block).Full :=
    hb.congr (sameShape_put b _ block)
  rw [hold, ← apply_ite, hnext.get_eq_ok_iff hq]
  show (b.blocks.setIfInBounds (b.dims.number p) block)[b.dims.number q]? = _
  rw [Array.getElem?_setIfInBounds, hblocks]
  by_cases hqp : q = p
  · rw [hqp, if_pos rfl, if_pos (hb.number_lt hp), if_pos rfl]
  · have hnumber : b.dims.number p ≠ b.dims.number q := fun h =>
      hqp (Dims.number_inj hq hp h.symm)
    rw [if_neg hnumber, if_neg hqp]

theorem SameShape.eq_of_blocks {next : Buffer} (h : b.SameShape next)
    (hblocks : next.blocks = b.blocks) : next = b := by
  cases b
  cases next
  cases h.coord
  cases h.dims
  cases hblocks
  rfl

/-- A buffer is known by its shape and what is read at each cell. -/
theorem Full.eq_of_get {next : Buffer} (hb : b.Full) (h : b.SameShape next)
    (hget : ∀ p, p.Within b.dims → next.get p = b.get p) : next = b := by
  apply h.eq_of_blocks
  apply Array.ext h.size
  intro i hi hi'
  have hcell : (b.dims.cell i).Within b.dims :=
    Dims.within_cell (hb.blocks ▸ hi')
  have hold : b.get (b.dims.cell i) = .ok b.blocks[i] := by
    rw [hb.get_eq_ok_iff hcell, Dims.number_cell]
    exact Array.getElem?_eq_getElem hi'
  rw [← hget _ hcell, (hb.congr h).get_eq_ok_iff (h.dims ▸ hcell), h.dims,
    Dims.number_cell, Array.getElem?_eq_getElem hi] at hold
  exact Option.some.inj hold

/-- A buffer whose blocks are given by number holds at a cell the block of the
cell's number. -/
theorem get_ofFn {c : Coord} {d : Dims} {n : Nat} {f : Nat → Block}
    (hb : Full ⟨c, d, Array.ofFn fun i : Fin n => f i⟩) (hp : p.Within d) :
    get ⟨c, d, Array.ofFn fun i : Fin n => f i⟩ p = .ok (f (d.number p)) := by
  have hlt : d.number p < (Array.ofFn fun i : Fin n => f i).size :=
    hb.number_lt hp
  rw [hb.get_eq_ok_iff hp]
  show (Array.ofFn fun i : Fin n => f i)[d.number p]? = _
  rw [Array.getElem?_eq_getElem hlt, Array.getElem_ofFn]

end Buffer

end ChunkStream
