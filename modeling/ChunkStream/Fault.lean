/-!
# Faults

A computation of this library ends in one of three ways: with a value, with an
error that its caller is expected to handle, or with a fault.  A fault is a
broken arithmetic or indexing rule; it carries the text that is reported for
it.  `Failure` joins the two unhappy endings, so that a caller that survives
faults (a worker) and a caller that does not can share one definition.
-/

namespace ChunkStream

inductive Fault
  | addOverflow
  | subOverflow
  | mulOverflow
  | indexOutOfBounds (length index : Nat)
  | capacityOverflow
  | raised (reason : String)
deriving DecidableEq, Repr, Inhabited

/-- The text reported for a fault. -/
def Fault.message : Fault → String
  | .addOverflow => "attempt to add with overflow"
  | .subOverflow => "attempt to subtract with overflow"
  | .mulOverflow => "attempt to multiply with overflow"
  | .indexOutOfBounds length index =>
      s!"index out of bounds: the len is {length} but the index is {index}"
  | .capacityOverflow => "capacity overflow"
  | .raised reason => reason

/-- An unhappy ending: a fault, or an error of the operation's own kind. -/
inductive Failure (ε : Type)
  | fault (cause : Fault)
  | error (cause : ε)
deriving DecidableEq, Repr

/-- A computation that can only fault, seen as one that may also fail. -/
def orFault {ε α : Type} : Except Fault α → Except (Failure ε) α
  | .ok value => .ok value
  | .error cause => .error (.fault cause)

@[simp]
theorem orFault_ok {ε α : Type} (value : α) :
    (orFault (.ok value) : Except (Failure ε) α) = .ok value := rfl

@[simp]
theorem orFault_error {ε α : Type} (cause : Fault) :
    (orFault (.error cause) : Except (Failure ε) α) = .error (.fault cause) := rfl

theorem of_orFault_eq_ok {ε α : Type} {x : Except Fault α} {value : α}
    (h : (orFault x : Except (Failure ε) α) = .ok value) : x = .ok value := by
  cases x with
  | error cause => cases h
  | ok value' =>
    cases h
    rfl

/-- A computation that ends well had a first part that ended well. -/
theorem exists_of_bind_eq_ok {ε α β : Type} {x : Except ε α} {f : α → Except ε β} {value : β}
    (h : x >>= f = .ok value) : ∃ a, x = .ok a ∧ f a = .ok value := by
  cases x with
  | error cause => cases h
  | ok a => exact ⟨a, rfl, h⟩

/-- A walk along a list that ended well had steps that ended well, and holds
what they gave. -/
theorem exists_of_mapM_eq_ok {ε α β : Type} {f : α → Except ε β} {l : List α}
    {values : List β} (h : l.mapM f = .ok values) {k : Nat} {a : α}
    (ha : l[k]? = some a) : ∃ value, f a = .ok value ∧ values[k]? = some value := by
  induction l generalizing values k with
  | nil => cases ha
  | cons first l ih =>
    rw [List.mapM_cons] at h
    obtain ⟨value, hvalue, h⟩ := exists_of_bind_eq_ok h
    obtain ⟨rest, hrest, h⟩ := exists_of_bind_eq_ok h
    cases h
    cases k with
    | zero =>
      cases ha
      exact ⟨value, hvalue, rfl⟩
    | succ k => exact ih hrest ha

/-- A walk along a list that failed did so at one of its steps, and those before
it ended well. -/
theorem exists_of_mapM_eq_error {ε α β : Type} {f : α → Except ε β} {l : List α}
    {cause : ε} (h : l.mapM f = .error cause) :
    ∃ (k : Nat) (a : α), l[k]? = some a ∧ f a = .error cause
      ∧ ∀ j < k, ∀ a', l[j]? = some a' → ∃ value, f a' = .ok value := by
  induction l with
  | nil => cases h
  | cons first l ih =>
    rw [List.mapM_cons] at h
    cases hfirst : f first with
    | error cause' =>
      rw [hfirst] at h
      cases h
      exact ⟨0, first, rfl, hfirst, fun j hj => absurd hj (Nat.not_lt_zero j)⟩
    | ok value =>
      cases hrest : l.mapM f with
      | ok rest =>
        rw [hfirst, hrest] at h
        cases h
      | error cause' =>
        rw [hfirst, hrest] at h
        cases h
        obtain ⟨k, a, ha, hfails, hbefore⟩ := ih hrest
        refine ⟨k + 1, a, ha, hfails, fun j hj a' ha' => ?_⟩
        cases j with
        | zero =>
          cases ha'
          exact ⟨value, hfirst⟩
        | succ j => exact hbefore j (Nat.lt_of_succ_lt_succ hj) a' ha'

end ChunkStream
