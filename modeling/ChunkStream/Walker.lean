import ChunkStream.Config

/-!
# Walkers

A walker moves by its velocity at every tick.  Its position is kept in single
precision, and the chunk it is in is found by rounding down.
-/

namespace ChunkStream

structure Walker where
  id : ObserverId
  velocityX : Float32
  velocityZ : Float32
  x : Float32
  y : Int32
  z : Float32
deriving Inhabited

namespace Walker

def ofSpec (s : ObserverSpec) : Walker where
  id := s.id
  velocityX := s.velocityX.value
  velocityZ := s.velocityZ.value
  x := s.start.x.toFloat32
  y := s.start.y
  z := s.start.z.toFloat32

def step (w : Walker) : Walker := { w with x := w.x + w.velocityX, z := w.z + w.velocityZ }

def steps : Nat → Walker → Walker
  | 0, w => w
  | n + 1, w => steps n w.step

/-- The chunk the walker is in; conversion to words saturates. -/
def position (w : Walker) : Coord := ⟨w.x.floor.toInt32, w.y, w.z.floor.toInt32⟩

end Walker

end ChunkStream
