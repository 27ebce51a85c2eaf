import ChunkStream.Box

/-!
# Interest regions

An interest region is what one observer wants: a footprint around the place
where the observer was last seen.  It remembers which coordinates it has
reported ready, so each is reported once for as long as it stays in the
footprint and resident.  Every operation answers with the callbacks it makes,
in order; `dirty` says that the footprint has changed since its production was
last requested.
-/

namespace ChunkStream

/-- The number an observer is known by. -/
abbrev ObserverId := UInt64

namespace ObserverId

def text (id : ObserverId) : String := s!"observer#{id}"

end ObserverId

/-- What a region reports. -/
inductive Callback
  | ready (coord : Coord)
  | irrelevant (coord : Coord)
deriving DecidableEq, Repr

/-- The region of one observer; `relevant` has the latest report first. -/
structure Interest where
  observer : ObserverId
  listening : Bool
  center : Coord
  distance : UInt32
  box : Box
  relevant : List Coord
  dirty : Bool
deriving DecidableEq, Repr

namespace Interest

/-- The region of an observer that has just been seen. -/
def seenAt (observer : ObserverId) (center : Coord) (distance : UInt32) (listening : Bool) :
    Interest where
  observer := observer
  listening := listening
  center := center
  distance := distance
  box := Box.footprint center distance
  relevant := []
  dirty := true

def setUpToDate (i : Interest) : Interest := { i with dirty := false }

/-- Takes over the footprint that belongs to center and distance.  Reported
coordinates that it no longer holds become irrelevant. -/
def reshape (i : Interest) : Interest × List Callback :=
  let next := Box.footprint i.center i.distance
  if next = i.box then (i, [])
  else
    let dropped := i.relevant.filter fun c => !next.contains c
    ({ i with box := next, relevant := i.relevant.filter next.contains, dirty := true },
      dropped.map .irrelevant)

def setDistance (d : UInt32) (i : Interest) : Interest × List Callback :=
  if d = i.distance then (i, []) else reshape { i with distance := d }

/-- Follows the observer.  While it has no position there is nothing to produce
for it. -/
def follow (position : Option Coord) (i : Interest) : Interest × List Callback :=
  match position with
  | none => ({ i with dirty := false }, [])
  | some c => if c = i.center then (i, []) else reshape { i with center := c }

/-- Footprint coordinates that are not reported ready. -/
def needed (i : Interest) : List Coord := i.box.toList.filter (· ∉ i.relevant)

def isRelevant (i : Interest) (c : Coord) : Bool := c ∈ i.relevant

/-- The footprint grown by a margin. -/
def expanded (i : Interest) (margin : Extents) : Box := i.box.expand margin

def expandedContains (i : Interest) (margin : Extents) (c : Coord) : Bool :=
  (i.expanded margin).contains c

/-- Reports a coordinate ready, unless it is outside or already reported. -/
def chunkReady (c : Coord) (i : Interest) : Interest × List Callback :=
  if i.box.contains c ∧ c ∉ i.relevant then
    ({ i with relevant := c :: i.relevant }, [.ready c])
  else (i, [])

/-- Takes the report of a coordinate back. -/
def chunkUnloaded (c : Coord) (i : Interest) : Interest × List Callback :=
  if c ∈ i.relevant then ({ i with relevant := i.relevant.erase c }, [.irrelevant c])
  else (i, [])

/-- The region with its fields named, as in diagnostics. -/
def debugText (i : Interest) : String :=
  s!"RelevanceRegion \x7b observer: ObserverId({i.observer}), center: {i.center.debugText}, "
    ++ s!"distance: {i.distance}, relevant: {i.relevant.length}, dirty: {i.dirty} \x7d"

end Interest

end ChunkStream
