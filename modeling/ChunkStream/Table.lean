import ChunkStream.Fault

/-!
# Tables

A table is a list of keyed values in the order the keys were first inserted.
Inserting under a key that is present replaces its value in place, so a table
built by `insert` and `erase` has each key at most once.  Iteration order is
the order of the list; a statement that should not depend on it quantifies over
permutations.
-/

namespace ChunkStream

abbrev Table (κ α : Type) := List (κ × α)

namespace Table

variable {κ α β : Type} [DecidableEq κ]

/-- The value under a key. -/
def get? : Table κ α → κ → Option α
  | [], _ => none
  | (k, v) :: rest, key => if k = key then some v else get? rest key

def contains (t : Table κ α) (key : κ) : Bool := (get? t key).isSome

/-- The table with a value put under a key. -/
def insert : Table κ α → κ → α → Table κ α
  | [], key, value => [(key, value)]
  | (k, v) :: rest, key, value =>
      if k = key then (key, value) :: rest else (k, v) :: insert rest key value

/-- The table without a key. -/
def erase (t : Table κ α) (key : κ) : Table κ α := t.filter fun e => e.1 ≠ key

/-- The table with the value under a key changed, if there is one. -/
def adjust : Table κ α → κ → (α → α) → Table κ α
  | [], _, _ => []
  | (k, v) :: rest, key, f => if k = key then (k, f v) :: rest else (k, v) :: adjust rest key f

/-- The table with every value changed. -/
def mapValues (t : Table κ α) (f : α → β) : Table κ β := t.map fun e => (e.1, f e.2)

def keys (t : Table κ α) : List κ := t.map (·.1)

def values (t : Table κ α) : List α := t.map (·.2)

theorem get?_insert (t : Table κ α) (key : κ) (value : α) (k : κ) :
    get? (insert t key value) k = if key = k then some value else get? t k := by
  induction t with
  | nil => simp [insert, get?]
  | cons e rest ih =>
    obtain ⟨k', v'⟩ := e
    by_cases h : k' = key
    · subst h
      by_cases hk : k' = k <;> simp [insert, get?, hk]
    · by_cases hk : k' = k
      · subst hk
        simp [insert, get?, h, Ne.symm h]
      · simp [insert, get?, h, hk, ih]

theorem get?_erase (t : Table κ α) (key k : κ) :
    get? (erase t key) k = if k = key then none else get? t k := by
  induction t with
  | nil => simp [erase, get?]
  | cons e rest ih =>
    obtain ⟨k', v'⟩ := e
    unfold erase at ih ⊢
    by_cases h : k' = key
    · subst h
      by_cases hk : k = k'
      · simpa [hk] using ih
      · simp [hk, Ne.symm hk, get?]
        simpa [hk] using ih
    · by_cases hk : k' = k
      · subst hk
        simp [h, get?]
      · simp [h, hk, get?]
        simpa using ih

end Table

end ChunkStream
