import ChunkStream.Proofs.Buffer.Cells

/-!
# Filling a buffer cell by cell

A loop over the numbers below a bound ends at the first step that fails, and an
invariant of its steps says where that is.  The loops of interest write blocks
to a buffer of air: at any time each cell has its block or is still air.
-/

namespace ChunkStream

/-- The steps for the numbers below a bound, in order. -/
def upTo {ε β : Type} : Nat → (Nat → β → Except ε β) → β → Except ε β
  | 0, _, b => .ok b
  | n + 1, step, b => upTo n step b >>= step n

section Loops

variable {ε β : Type} {step step' : Nat → β → Except ε β}
  {I : Nat → β → Prop} {cause : ε} {b : β} {m n : Nat}

theorem upTo_succ (n : Nat) (step : Nat → β → Except ε β) (b : β) :
    upTo (n + 1) step b = upTo n step b >>= step n := rfl

/-- A loop whose steps keep the invariant goes through. -/
theorem exists_upTo (hstart : I 0 b)
    (hstep : ∀ k < n, ∀ b, I k b → ∃ next, step k b = .ok next
      ∧ I (k + 1) next) :
    ∃ next, upTo n step b = .ok next ∧ I n next := by
  induction n with
  | zero => exact ⟨b, rfl, hstart⟩
  | succ n ih =>
    obtain ⟨mid, hmid, hinv⟩ := ih fun k hk => hstep k (Nat.lt_succ_of_lt hk)
    obtain ⟨next, hnext, hinv⟩ := hstep n (Nat.lt_succ_self n) mid hinv
    refine ⟨next, ?_, hinv⟩
    rw [upTo_succ, hmid]
    exact hnext

/-- A loop ends at the first step that fails. -/
theorem upTo_eq_error (hm : m < n) (hstart : I 0 b)
    (hstep : ∀ k < m, ∀ b, I k b → ∃ next, step k b = .ok next
      ∧ I (k + 1) next)
    (hfails : ∀ b, I m b → step m b = .error cause) :
    upTo n step b = .error cause := by
  induction n with
  | zero => exact absurd hm (Nat.not_lt_zero m)
  | succ n ih =>
    rw [upTo_succ]
    rcases Nat.lt_succ_iff_lt_or_eq.1 hm with hlt | rfl
    · rw [ih hlt]
      rfl
    · obtain ⟨mid, hmid, hinv⟩ := exists_upTo hstart hstep
      rw [hmid]
      exact hfails mid hinv

theorem upTo_congr (h : ∀ k < n, ∀ b, step k b = step' k b) (b : β) :
    upTo n step b = upTo n step' b := by
  induction n with
  | zero => rfl
  | succ n ih =>
    rw [upTo_succ, upTo_succ, ih fun k hk => h k (Nat.lt_succ_of_lt hk)]
    exact bind_congr fun mid => h n (Nat.lt_succ_self n) mid

theorem upTo_add (m n : Nat) (step : Nat → β → Except ε β) (b : β) :
    upTo (m + n) step b
      = upTo m step b >>= upTo n (fun k => step (m + k)) := by
  induction n with
  | zero =>
    show upTo m step b = upTo m step b >>= pure
    rw [bind_pure]
  | succ n ih =>
    rw [← Nat.add_assoc, upTo_succ, ih, bind_assoc]
    rfl

/-- Two loops, one inside the other, are one loop over the numbers with two
digits. -/
theorem upTo_mul (m n : Nat) (step : Nat → Nat → β → Except ε β) :
    upTo m (fun i => upTo n (step i))
      = upTo (m * n) (fun k => step (k / n) (k % n)) := by
  funext b
  induction m with
  | zero =>
    rw [Nat.zero_mul]
    rfl
  | succ m ih =>
    rw [Nat.succ_mul, upTo_succ, upTo_add, ih]
    refine bind_congr fun mid => upTo_congr (fun k hk b => ?_) mid
    rw [(Dims.digit_div_mod hk).1, (Dims.digit_div_mod hk).2]

/-- The loops over some layers, their rows and the cells of a row meet the cells
in the order of their numbers. -/
theorem upTo_cells (d : Dims) (n : Nat) (step : Cell → β → Except ε β) :
    upTo n (fun y => upTo d.z fun z => upTo d.x fun x => step ⟨x, y, z⟩)
      = upTo (d.layer * n) fun k => step (d.cell k) := by
  simp only [upTo_mul]
  rw [Nat.mul_comm d.layer, Dims.layer, Nat.mul_comm d.z]
  congr 1
  funext k
  rw [Nat.mod_mul_right_mod, Nat.mod_mul_right_div_self]
  rfl

end Loops

namespace Buffer

variable {c : Coord} {d : Dims} {target : Cell → Block}
  {done done' : Cell → Prop} {b : Buffer} {p : Cell} {n : Nat}

/-- A buffer of air in which some cells have got their blocks. -/
structure Laid (c : Coord) (d : Dims) (target : Cell → Block)
    (done : Cell → Prop) (b : Buffer) : Prop where
  coord : b.coord = c
  dims : b.dims = d
  full : b.Full
  laid : ∀ p, p.Within d → done p → b.get p = .ok (target p)
  blank : ∀ p, p.Within d → ¬done p → b.get p = .ok .air

/-- Cells whose block is air are done without being written. -/
theorem Laid.widen (h : Laid c d target done b)
    (hkept : ∀ p, p.Within d → done p → done' p)
    (hair : ∀ p, p.Within d → done' p → ¬done p → target p = .air) :
    Laid c d target done' b where
  coord := h.coord
  dims := h.dims
  full := h.full
  laid p hp hdone' := by
    by_cases hdone : done p
    · exact h.laid p hp hdone
    · rw [hair p hp hdone' hdone]
      exact h.blank p hp hdone
  blank p hp hopen := h.blank p hp fun hdone => hopen (hkept p hp hdone)

theorem Laid.congr (h : Laid c d target done b)
    (hiff : ∀ p, p.Within d → (done' p ↔ done p)) :
    Laid c d target done' b :=
  h.widen (fun p hp => (hiff p hp).2)
    fun p hp hdone' hopen => absurd ((hiff p hp).1 hdone') hopen

theorem Laid.exists_set (h : Laid c d target done b) (hp : p.Within d)
    (hiff : ∀ q, q.Within d → (done' q ↔ done q ∨ q = p)) :
    ∃ next, b.set p (target p) = .ok next ∧ Laid c d target done' next := by
  obtain ⟨rfl, rfl, hb⟩ : b.coord = c ∧ b.dims = d ∧ b.Full :=
    ⟨h.coord, h.dims, h.full⟩
  have hshape := sameShape_put b (b.dims.number p) (target p)
  refine ⟨_, hb.set_eq hp, hshape.coord, hshape.dims, hb.congr hshape, ?_, ?_⟩
  · intro q hq hdone
    rw [hb.get_put hp hq]
    split
    · next heq => rw [heq]
    · next hne =>
      exact h.laid q hq (((hiff q hq).1 hdone).resolve_right hne)
  · intro q hq hopen
    rw [hiff q hq, not_or] at hopen
    rw [hb.get_put hp hq, if_neg hopen.2]
    exact h.blank q hq hopen.1

theorem laid_air (h : Full ⟨c, d, Array.replicate n .air⟩) :
    Laid c d target (fun _ => False) ⟨c, d, Array.replicate n .air⟩ where
  coord := rfl
  dims := rfl
  full := h
  laid _ _ hdone := hdone.elim
  blank p hp _ := by
    have hlt : d.number p < n := by
      simpa using h.number_lt hp
    rw [h.get_eq_ok_iff hp]
    show (Array.replicate n Block.air)[d.number p]? = _
    rw [Array.getElem?_replicate, if_pos hlt]

/-- Once all cells have been laid, the buffer is the one that holds the
blocks. -/
theorem Laid.eq_of_get {next : Buffer} (h : Laid c d target done b)
    (hdone : ∀ p, p.Within d → done p) (hcoord : next.coord = c)
    (hdims : next.dims = d) (hfull : next.Full)
    (hget : ∀ p, p.Within d → next.get p = .ok (target p)) : b = next := by
  apply hfull.eq_of_get
  · refine ⟨h.coord.trans hcoord.symm, h.dims.trans hdims.symm, ?_⟩
    rw [h.full.blocks, hfull.blocks, h.dims, hdims]
  · intro p hp
    rw [hdims] at hp
    rw [h.laid p hp (hdone p hp), hget p hp]

end Buffer

end ChunkStream
