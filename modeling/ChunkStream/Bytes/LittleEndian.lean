import ChunkStream.Word

/-!
# Little-endian fields

Numbers are written with a fixed number of bytes, the lowest byte first.  A
reader answers with the value and the bytes it left, or with nothing when the
bytes run out.
-/

namespace ChunkStream.Bytes

/-- The `width` lowest bytes of a number, the lowest first. -/
def encodeNat : Nat → Nat → List UInt8
  | 0, _ => []
  | width + 1, n => UInt8.ofNat n :: encodeNat width (n / 256)

def decodeNat : Nat → List UInt8 → Option (Nat × List UInt8)
  | 0, bytes => some (0, bytes)
  | _ + 1, [] => none
  | width + 1, b :: bytes =>
      match decodeNat width bytes with
      | none => none
      | some (n, rest) => some (b.toNat + 256 * n, rest)

/-- How many numbers a field of some bytes can hold. -/
def capacity : Nat → Nat
  | 0 => 1
  | width + 1 => 256 * capacity width

def encodeWord (w : Int32) : List UInt8 := encodeNat 4 w.toUInt32.toNat

def decodeWord (bytes : List UInt8) : Option (Int32 × List UInt8) := do
  let (n, rest) ← decodeNat 4 bytes
  return (Int32.ofNat n, rest)

/-- The first `n` bytes and the others, unless there are fewer. -/
def splitExactly (n : Nat) (bytes : List UInt8) : Option (List UInt8 × List UInt8) :=
  let head := bytes.take n
  if head.length = n then some (head, bytes.drop n) else none

@[simp]
theorem length_encodeNat (width n : Nat) : (encodeNat width n).length = width := by
  induction width generalizing n with
  | zero => rfl
  | succ width ih => simp [encodeNat, ih]

/-- A field that holds the number reads back, and the bytes after it are left. -/
theorem decodeNat_encodeNat {width n : Nat} (h : n < capacity width) (rest : List UInt8) :
    decodeNat width (encodeNat width n ++ rest) = some (n, rest) := by
  induction width generalizing n with
  | zero => simp [encodeNat, decodeNat]; unfold capacity at h; omega
  | succ width ih =>
    have hn : n / 256 < capacity width := by
      unfold capacity at h
      omega
    simp only [encodeNat, List.cons_append, decodeNat, ih hn, UInt8.toNat_ofNat',
      Option.some.injEq, Prod.mk.injEq, and_true]
    omega

end ChunkStream.Bytes
