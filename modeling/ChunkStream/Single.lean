/-!
# Single-precision numbers by their bits

Parameters in single precision are kept as bits, so that one that is no number
still has its sign when it is written down again.  Comparison is that of
numbers: zeros are equal whatever their sign, and what is no number differs
from itself.
-/

namespace ChunkStream

structure Single where
  bits : UInt32
deriving Repr, Inhabited

namespace Single

def value (s : Single) : Float32 := Float32.ofBits s.bits

def ofFloat32 (v : Float32) : Single := ⟨v.toBits⟩

/-- The nearest single-precision number. -/
def ofFloat (v : Float) : Single := ofFloat32 v.toFloat32

/-- No number, with a sign. -/
def nan (negative : Bool) : Single := ⟨if negative then 0xffc00000 else 0x7fc00000⟩

instance : BEq Single := ⟨fun a b => a.value == b.value⟩

end Single

end ChunkStream
