import ChunkStream.Word

/-!
# OpenSimplex2 noise in the plane

Gradient noise on the triangular lattice in 32-bit floating point.  A point is
skewed onto the square lattice; the corner below it, the corner above it and
one of the two others contribute a gradient each, faded with the fourth power
of a distance.  The operations stand in a fixed order, since rounding depends
on it.  The only fault is a lattice corner below the least word.
-/

namespace ChunkStream.Simplex

def sqrtThree : Float32 := 1.7320508075688772935
def unskew : Float32 := (3.0 - sqrtThree) / 6.0
def skew : Float32 := 0.5 * (sqrtThree - 1.0)
def primeX : Int32 := 501125321
def primeY : Int32 := 1136930381

/-- Twenty-four directions, evenly spaced around the circle. -/
def directions : Array (Float32 × Float32) :=
  let a : Float32 := 0.130526192220052
  let b : Float32 := 0.99144486137381
  let c : Float32 := 0.38268343236509
  let d : Float32 := 0.923879532511287
  let e : Float32 := 0.608761429008721
  let f : Float32 := 0.793353340291235
  #[(a, b), (c, d), (e, f), (f, e), (d, c), (b, a), (b, -a), (d, -c), (f, -e), (e, -f), (c, -d),
    (a, -b), (-a, -b), (-c, -d), (-e, -f), (-f, -e), (-d, -c), (-b, -a), (-b, a), (-d, c), (-f, e),
    (-e, f), (-c, d), (-a, b)]

/-- The eight directions that fill the table up. -/
def diagonals : Array (Float32 × Float32) :=
  let c : Float32 := 0.38268343236509
  let d : Float32 := 0.923879532511287
  #[(c, d), (d, c), (d, -c), (c, -d), (-c, -d), (-d, -c), (-d, c), (-c, d)]

/-- 128 gradients: the directions five times over, then the diagonals. -/
def gradients : Array (Float32 × Float32) :=
  directions ++ directions ++ directions ++ directions ++ directions ++ diagonals

/-- The greatest word not above a value; negative values always step down. -/
def floor (v : Float32) : Except Fault Int32 :=
  if v ≥ 0.0 then .ok v.toInt32 else Word.sub v.toInt32 1

/-- The component along the gradient of a lattice corner. -/
def slope (seed i j : Int32) (dx dy : Float32) : Float32 :=
  let h := (seed ^^^ i ^^^ j) * 0x27d4eb2d
  let h := h ^^^ (h >>> 15)
  let (gx, gy) := gradients.getD ((h &&& 254).toInt / 2).toNat (0.0, 0.0)
  dx * gx + dy * gy

/-- What a corner adds: nothing beyond its reach. -/
def contribution (reach : Float32) (along : Float32) : Float32 :=
  if reach ≤ 0.0 then 0.0 else (reach * reach) * (reach * reach) * along

/-- Noise at a point of the plane, between minus one and one. -/
def noise (seed : Int32) (frequency x y : Float32) : Except Fault Float32 := do
  let x := x * frequency
  let y := y * frequency
  let t := (x + y) * skew
  let x := x + t
  let y := y + t
  let i ← floor x
  let j ← floor y
  let xi := x - i.toFloat32
  let yi := y - j.toFloat32
  let t := (xi + yi) * unskew
  let x0 := xi - t
  let y0 := yi - t
  let i := i * primeX
  let j := j * primeY
  let a := 0.5 - x0 * x0 - y0 * y0
  let n0 := contribution a (slope seed i j x0 y0)
  let c := (2.0 * (1.0 - 2.0 * unskew) * (1.0 / unskew - 2.0)) * t
    + ((-2.0 * (1.0 - 2.0 * unskew) * (1.0 - 2.0 * unskew)) + a)
  let n2 :=
    contribution c (slope seed (i + primeX) (j + primeY) (x0 + (2.0 * unskew - 1.0))
      (y0 + (2.0 * unskew - 1.0)))
  let n1 :=
    if y0 > x0 then
      let x1 := x0 + unskew
      let y1 := y0 + (unskew - 1.0)
      contribution (0.5 - x1 * x1 - y1 * y1) (slope seed i (j + primeY) x1 y1)
    else
      let x1 := x0 + (unskew - 1.0)
      let y1 := y0 + unskew
      contribution (0.5 - x1 * x1 - y1 * y1) (slope seed (i + primeX) j x1 y1)
  return (n0 + n1 + n2) * 99.83685446303647

end ChunkStream.Simplex
