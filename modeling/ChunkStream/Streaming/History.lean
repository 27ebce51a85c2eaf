import ChunkStream.Streaming.Interest

/-!
# Histories of a region

What can happen to a region, act by act, and the callbacks that come of it.
Whenever the observer is followed it may be anywhere, or nowhere.
-/

namespace ChunkStream

/-- What can happen to a region. -/
inductive InterestAct
  | setDistance (d : UInt32)
  | follow (position : Option Coord)
  | chunkReady (c : Coord)
  | chunkUnloaded (c : Coord)
  | setUpToDate
deriving DecidableEq, Repr

namespace Callback

/-- What the callback is about. -/
def coord : Callback → Coord
  | ready c => c
  | irrelevant c => c

/-- The first `n` of callbacks on one coordinate that take turns, beginning with
a report. -/
def turns (c : Coord) (n : Nat) : List Callback :=
  (List.range n).map fun k => if k % 2 = 0 then ready c else irrelevant c

end Callback

namespace Interest

def act (i : Interest) : InterestAct → Interest × List Callback
  | .setDistance d => i.setDistance d
  | .follow position => i.follow position
  | .chunkReady c => i.chunkReady c
  | .chunkUnloaded c => i.chunkUnloaded c
  | .setUpToDate => (i.setUpToDate, [])

/-- The callbacks that some acts make, in order, and the region after them. -/
def run (acts : List InterestAct) (i : Interest) : List Callback × Interest :=
  acts.foldl (fun (log, i) a => (log ++ (i.act a).2, (i.act a).1)) ([], i)

end Interest

end ChunkStream
