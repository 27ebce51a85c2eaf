import ChunkStream.Streaming.State

/-!
# Eviction

When the near cache exceeds its budget, a sweep moves the oldest chunks that no
region retains to the far tier, one by one, until the cache is within budget or
no candidate is left.  A chunk that somebody holds and one that the tier
refuses stay, and the next candidate is tried in their place.
-/

namespace ChunkStream.Eviction

variable {σ : Type}

/-- Moves a chunk to the far tier; tells whether it left the near cache. -/
def evict (setup : Setup σ) (c : Coord) (s : StreamState σ) : Bool × StreamState σ :=
  match s.chunk? c with
  | none => (false, s)
  | some chunk =>
      if chunk.locked then (false, s.note (.evictionDeferred c))
      else
        let s := s.record (.called (.put chunk.coord))
        match setup.tier.put chunk s.far with
        | .error cause => (false, s.note (.evictionRefused c cause))
        | .ok far =>
            let s := { s with far := far }.dismiss c
            (true, { s with announced := s.announced.erase c }.record (.evicted c))

/-- The chunks a sweep may evict, oldest first. -/
def candidates (s : StreamState σ) : List Coord :=
  ((s.near.filter fun e => !s.isRetained e.1).mergeSort fun a b => a.2.age ≤ b.2.age).map (·.1)

/-- Evicts up to `excess` of the candidates, in turn. -/
def evictUpTo (setup : Setup σ) : Nat → List Coord → StreamState σ → List Coord × StreamState σ
  | 0, _, s => ([], s)
  | _, [], s => ([], s)
  | excess + 1, c :: cs, s =>
      match evict setup c s with
      | (true, s) =>
          let (evicted, s) := evictUpTo setup excess cs s
          (c :: evicted, s)
      | (false, s) => evictUpTo setup (excess + 1) cs s

/-- One sweep, and what it evicted. -/
def sweep (setup : Setup σ) (s : StreamState σ) : List Coord × StreamState σ :=
  let resident := s.near.length
  if resident ≤ setup.budget then ([], s)
  else
    evictUpTo setup (resident - setup.budget) (candidates s)
      (s.note (.compacting resident setup.budget))

/-- Tells the regions and the receiver of events that a chunk is gone. -/
def notifyUnloaded (c : Coord) (s : StreamState σ) : StreamState σ :=
  (s.updateRegions (Interest.chunkUnloaded c)).record (.sent (.unloaded c))

end ChunkStream.Eviction
