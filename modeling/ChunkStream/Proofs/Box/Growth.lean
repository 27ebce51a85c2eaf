import ChunkStream.Proofs.Box.Reach
import Mathlib.Algebra.GroupWithZero.Nat

/-!
# Boxes that grow again and again

A box with a center that grows a number of times comes to the reach it had and
the sum of what it grew by.  Nothing is lost by clamping at every step, so
membership is the exact distance compared with the exact sum at every place of
the world, and the margins around a footprint lie in each other.
-/

namespace ChunkStream

/-- The reach with some half-sizes added along each axis. -/
def Reach.plus (r : Reach) (es : List Extents) : Reach where
  x := r.x + (es.map (·.reach.x)).sum
  y := r.y + (es.map (·.reach.y)).sum
  z := r.z + (es.map (·.reach.z)).sum

theorem Reach.add_plus (r : Reach) (e : Extents) (es : List Extents) :
    (r + e.reach).plus es = r.plus (e :: es) := by
  simp [plus, Nat.add_assoc]

namespace Box

variable {c d d' : Coord} {es : List Extents} {n : UInt32}

/-- Growing a box step by step adds up to one reach. -/
theorem foldl_expand_reaching (hes : ∀ m ∈ es, m.Nonneg) (r : Reach) :
    es.foldl expand (reaching c r) = reaching c (r.plus es) := by
  induction es generalizing r with
  | nil => rfl
  | cons m es ih =>
    rw [List.forall_mem_cons] at hes
    rw [List.foldl_cons, expand_reaching hes.1, ih hes.2, Reach.add_plus]

/-- The neighbours of a footprint are within the margin of production. -/
theorem contains_expand_production_of_neighbor
    (hd : (footprint c n).contains d = true)
    (hd' : (neighborhood d).contains d' = true) :
    ((footprint c n).expand .production).contains d' = true := by
  rw [footprint_eq_reaching, contains_reaching_iff] at hd
  rw [neighborhood_eq_reaching, contains_reaching_iff] at hd'
  rw [footprint_eq_reaching, expand_reaching Extents.nonneg_production,
    contains_reaching_iff]
  exact (hd.trans hd').mono (Nat.add_le_add_left (by decide) _)
    (Nat.add_le_add_left (by decide) _) (Nat.add_le_add_left (by decide) _)

theorem contains_expand_retention_of_production
    (hd : ((footprint c n).expand .production).contains d = true) :
    ((footprint c n).expand .retention).contains d = true := by
  rw [footprint_eq_reaching, expand_reaching Extents.nonneg_production,
    contains_reaching_iff] at hd
  rw [footprint_eq_reaching, expand_reaching Extents.nonneg_retention,
    contains_reaching_iff]
  exact hd.mono (Nat.add_le_add_left (by decide) _)
    (Nat.add_le_add_left (by decide) _) (Nat.add_le_add_left (by decide) _)

/-- Boxes are exact although their corners are clamped.  A box around a center,
grown any number of times, contains what is on every axis within the half-size
and all that it was grown by, over the integers; so does a footprint, whose
half-size is the distance as far as there are words, and zero upwards.  Boxes
with the same center and the same sums are equal, neighbours are each other's,
and what is near a footprint is produced, and what is produced is retained. -/
theorem growth_exact (c : Coord) (e : Extents) (n : UInt32)
    (es : List Extents) (hes : ∀ m ∈ es, m.Nonneg) :
    (∀ d, (es.foldl expand (around c e)).contains d = true ↔
        (e.reach.plus es).Spans c d)
      ∧ (∀ d, (es.foldl expand (footprint c n)).contains d = true ↔
        (Reach.plus ⟨Min.min n.toNat 2147483647, 0,
          Min.min n.toNat 2147483647⟩ es).Spans c d)
      ∧ (∀ (e' : Extents) (es' : List Extents), (∀ m ∈ es', m.Nonneg) →
        e'.reach.plus es' = e.reach.plus es →
        es'.foldl expand (around c e') = es.foldl expand (around c e))
      ∧ (∀ d, (neighborhood c).contains d = true ↔
        (neighborhood d).contains c = true)
      ∧ (∀ d, (footprint c n).contains d = true →
        ∀ d', (neighborhood d).contains d' = true →
          ((footprint c n).expand .production).contains d' = true)
      ∧ (∀ d, ((footprint c n).expand .production).contains d = true →
        ((footprint c n).expand .retention).contains d = true) := by
  refine ⟨fun d => ?_, fun d => ?_, fun e' es' hes' hsums => ?_,
    fun d => contains_neighborhood_comm,
    fun d hd d' hd' => contains_expand_production_of_neighbor hd hd',
    fun d hd => contains_expand_retention_of_production hd⟩
  · rw [around_eq_reaching, foldl_expand_reaching hes, contains_reaching_iff]
  · rw [footprint_eq_reaching, foldl_expand_reaching hes,
      contains_reaching_iff]
  · rw [around_eq_reaching, around_eq_reaching, foldl_expand_reaching hes',
      foldl_expand_reaching hes, hsums]

/-- At a corner of the world, with a half-size that counts as zero and a sum that
is no word: the last coordinate within the sums, and one beyond. -/
theorem growth_exact_at_the_corner :
    let c : Coord := ⟨2147483640, 0, -2147483648⟩
    let e : Extents := ⟨-3, 1, 2⟩
    let es : List Extents := [⟨2, 0, 5⟩, ⟨1, 0, 2147483647⟩]
    (∀ m ∈ es, m.Nonneg)
      ∧ (es.foldl expand (around c e)).contains ⟨2147483637, -1, 6⟩ = true
      ∧ ¬(es.foldl expand (around c e)).contains ⟨2147483637, -1, 7⟩ = true := by
  intro c e es
  have hes : ∀ m ∈ es, m.Nonneg := by
    rw [List.forall_mem_cons, List.forall_mem_singleton]
    exact ⟨⟨by decide, by decide, by decide⟩,
      ⟨by decide, by decide, by decide⟩⟩
  obtain ⟨hcontains, -⟩ := growth_exact c e 0 es hes
  refine ⟨hes, (hcontains _).2 ⟨by decide, by decide, by decide⟩, fun h => ?_⟩
  exact absurd ((hcontains _).1 h).z (by decide)

end Box

end ChunkStream
