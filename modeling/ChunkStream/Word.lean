import ChunkStream.Fault

/-!
# Arithmetic on 32-bit words and 64-bit sizes

World positions are 32-bit words.  Two kinds of arithmetic are used on them:
checked arithmetic, which computes exactly over the integers and faults when
the result is not a word, and saturating arithmetic, which takes the nearest
word instead.  Buffer sizes are natural numbers below a limit of 64 bits, with
checked sums and products.
-/

namespace ChunkStream

namespace Word

/-- The integer is the value of some word. -/
def Fits (n : Int) : Prop := -2147483648 ≤ n ∧ n ≤ 2147483647

instance (n : Int) : Decidable (Fits n) := inferInstanceAs (Decidable (_ ∧ _))

/-- The word with value `n`, or the given fault when there is none. -/
def exactly (cause : Fault) (n : Int) : Except Fault Int32 :=
  if Fits n then .ok (Int32.ofInt n) else .error cause

def add (a b : Int32) : Except Fault Int32 := exactly .addOverflow (a.toInt + b.toInt)

def sub (a b : Int32) : Except Fault Int32 := exactly .subOverflow (a.toInt - b.toInt)

def mul (a b : Int32) : Except Fault Int32 := exactly .mulOverflow (a.toInt * b.toInt)

/-- The word nearest to an integer. -/
def nearest (n : Int) : Int32 := Int32.ofInt (max (-2147483648) (min n 2147483647))

/-- The sum, clamped to the words. -/
def clampedAdd (a b : Int32) : Int32 := nearest (a.toInt + b.toInt)

/-- The difference, clamped to the words. -/
def clampedSub (a b : Int32) : Int32 := nearest (a.toInt - b.toInt)

theorem fits_toInt (a : Int32) : Fits a.toInt :=
  ⟨Int32.le_toInt a, Int.le_of_lt_add_one (Int32.toInt_lt a)⟩

theorem toInt_ofInt_of_fits {n : Int} (h : Fits n) : (Int32.ofInt n).toInt = n :=
  Int32.toInt_ofInt_of_le h.1 (Int.lt_add_one_of_le h.2)

/-- A checked result has exactly the requested value. -/
theorem exactly_eq_ok_iff {cause : Fault} {n : Int} {w : Int32} :
    exactly cause n = .ok w ↔ w.toInt = n := by
  unfold exactly
  split
  · next h =>
    constructor
    · intro hw
      cases hw
      exact toInt_ofInt_of_fits h
    · intro hw
      rw [← hw, Int32.ofInt_toInt]
  · next h =>
    constructor
    · intro hw
      cases hw
    · intro hw
      exact absurd (hw ▸ fits_toInt w) h

/-- A checked operation has one way to fail. -/
theorem exactly_eq_error_iff {cause cause' : Fault} {n : Int} :
    exactly cause n = .error cause' ↔ ¬Fits n ∧ cause' = cause := by
  unfold exactly
  split
  · next h =>
    constructor
    · intro hw
      cases hw
    · rintro ⟨hn, -⟩
      exact absurd h hn
  · next h =>
    constructor
    · intro hw
      cases hw
      exact ⟨h, rfl⟩
    · rintro ⟨-, rfl⟩
      rfl

/-- A checked operation has a result when its value is that of a word. -/
theorem exists_exactly_iff {cause : Fault} {n : Int} :
    (∃ w, exactly cause n = .ok w) ↔ Fits n := by
  constructor
  · rintro ⟨w, hw⟩
    exact exactly_eq_ok_iff.1 hw ▸ fits_toInt w
  · intro h
    exact ⟨_, if_pos h⟩

@[simp]
theorem toInt_nearest (n : Int) :
    (nearest n).toInt = max (-2147483648) (min n 2147483647) :=
  toInt_ofInt_of_fits ⟨by omega, by omega⟩

end Word

namespace Size

/-- Sizes are words of 64 bits, below this bound. -/
def limit : Nat := 18446744073709551616

def add (a b : Nat) : Except Fault Nat :=
  if a + b < limit then .ok (a + b) else .error .addOverflow

def mul (a b : Nat) : Except Fault Nat :=
  if a * b < limit then .ok (a * b) else .error .mulOverflow

/-- The word that has the low 32 bits of a size. -/
def toWord (n : Nat) : Int32 := Int32.ofNat n

theorem toInt_toWord {n : Nat} (h : n < 2147483648) : (toWord n).toInt = n :=
  Int32.toInt_ofNat_of_lt h

end Size

end ChunkStream
