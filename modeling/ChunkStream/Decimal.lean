/-!
# Reading decimals

The double nearest to a decimal, halves to even, found with exact arithmetic on
natural numbers: scale the fraction until its integral part has 53 bits, round
once, and assemble the bits.
-/

namespace ChunkStream.Decimal

/-- A quotient of naturals rounded to the nearest natural, halves to even. -/
def roundedDiv (num den : Nat) : Nat :=
  let q := num / den
  let twice := 2 * (num % den)
  if twice < den then q
  else if den < twice then q + 1
  else if q % 2 = 0 then q else q + 1

/-- The least natural that takes 53 bits. -/
def leastSignificand : Nat := 4503599627370496

/-- The least exponent of a double. -/
def leastExponent : Int := -1074

/-- The quotient of `num` and `den` times the `q`-th power of two, rounded to a
natural. -/
def scaled (num den : Nat) (q : Int) : Nat :=
  if 0 ≤ q then roundedDiv num (den <<< q.toNat) else roundedDiv (num <<< (-q).toNat) den

/-- The exponent of the last of 53 bits of a positive quotient. -/
def exponent (num den : Nat) : Int :=
  let q : Int := num.log2 - den.log2 - 52
  let below := if 0 ≤ q then num < (den <<< q.toNat) <<< 52 else num <<< (-q).toNat < den <<< 52
  max (if below then q - 1 else q) leastExponent

/-- The bits of the positive double nearest to a positive quotient; nothing when
it exceeds all doubles. -/
def nearestBits? (num den : Nat) : Option UInt64 :=
  let q := exponent num den
  let m := scaled num den q
  let (m, q) := if m = 2 * leastSignificand then (leastSignificand, q + 1) else (m, q)
  if m < leastSignificand then some (UInt64.ofNat m)
  else
    let biased := (q + 1075).toNat
    if 2047 ≤ biased then none else some (UInt64.ofNat ((biased - 1) * leastSignificand + m))

/-- Decimals with more digits before the point than this exceed all doubles, and
those with more zeros after it are too small for any. -/
def widestPlace : Nat := 400

/-- The double nearest to a mantissa times the `scale`-th power of ten; nothing
when it exceeds all doubles. -/
def toFloat? (mantissa : Nat) (scale : Int) : Option Float :=
  if mantissa = 0 then some 0.0
  else
    let place := scale + (Nat.toDigits 10 mantissa).length
    if (widestPlace : Int) < place then none
    else if place < -(widestPlace : Int) then some 0.0
    else
      let bits :=
        if 0 ≤ scale then nearestBits? (mantissa * Nat.pow 10 scale.toNat) 1
        else nearestBits? mantissa (Nat.pow 10 (-scale).toNat)
      bits.map Float.ofBits

end ChunkStream.Decimal
