import ChunkStream.Streaming.Eviction
import ChunkStream.Streaming.Production

/-!
# The provider

A provider streams chunks to observers.  `addRelevance` begins to track an
observer, `update` is one cycle: follow the observers and request what they
lack, publish what became ready, and sweep the near cache.  `dispose` ends all
production, moves every resident chunk to the far tier and saves it.

Where observers are is not the provider's business; `update` and `addRelevance`
are told.
-/

namespace ChunkStream

structure Provider (σ : Type) where
  pipeline : Pipeline (StreamState σ)
  disposed : Bool
  /-- What `dispose` wrote at the save path. -/
  saved : Option (List UInt8)

/-- A summary of a provider. -/
structure ProviderStats where
  resident : Nat
  preparing : Nat
  regions : Nat
  stored : Nat
  pipeline : PipelineStats
deriving DecidableEq, Repr

namespace Provider

variable {σ : Type}

def state (p : Provider σ) : StreamState σ := p.pipeline.state

def modifyState (f : StreamState σ → StreamState σ) (p : Provider σ) : Provider σ :=
  { p with pipeline := { p.pipeline with state := f p.pipeline.state } }

/-- A provider without chunks. -/
def start (setup : Setup σ) (world : String) (workers : Nat) (far : σ) :
    Except PipelineError (Provider σ) := do
  let pipeline ← Pipeline.start (Production.handler setup) workers (.start far)
  return modifyState (·.note (.opened world setup.budget workers)) ⟨pipeline, false, none⟩

/-! ## Requests -/

/-- Requests production of every coordinate of a box. -/
def requestBox (setup : Setup σ) (b : Box) (p : Provider σ) : Provider σ :=
  { p with pipeline := (p.pipeline.requestBox (Production.handler setup) b).2 }

/-- Requests production of one chunk, unless it is resident or in flight. -/
def requestChunk (setup : Setup σ) (c : Coord) (p : Provider σ) : Provider σ :=
  { p with pipeline := (p.pipeline.request (Production.handler setup) c).2 }

/-- Has a coordinate published as ready by the next update, whether it is or
not. -/
def markReady (c : Coord) (p : Provider σ) : Provider σ := p.modifyState (·.signal c)

/-! ## Observers -/

/-- Reports the ready coordinates among some to one region. -/
def reportReady (id : ObserverId) (cs : List Coord) (s : StreamState σ) : StreamState σ :=
  cs.foldl
    (fun s c => if s.isReady c then s.updateRegion id (Interest.chunkReady c) else s) s

/-- Tracks an observer that is seen at a position; of one that is tracked
already only the distance is changed.  Tells whether the observer is tracked. -/
def addRelevance (setup : Setup σ) (id : ObserverId) (position : Option Coord)
    (distance : UInt32) (listening : Bool) (p : Provider σ) : Bool × Provider σ :=
  if Table.contains p.state.regions id then
    (true, p.modifyState (·.updateRegion id (Interest.setDistance distance)))
  else
    match position with
    | none => (false, p.modifyState (·.note (.noPosition id)))
    | some c =>
        let i := Interest.seenAt id c distance listening
        let p := p.modifyState fun s =>
          reportReady id i.box.toList
            { s with regions := Table.insert s.regions id i }.publishCenters
        let p := p.requestBox setup (i.expanded .production)
        (true, p.modifyState (·.updateRegion id fun i => (i.setUpToDate, [])))

/-- Changes the distance of a tracked observer. -/
def updateRelevance (id : ObserverId) (distance : UInt32) (p : Provider σ) : Provider σ :=
  p.modifyState (·.updateRegion id (Interest.setDistance distance))

/-- Forgets an observer.  Its chunks stay until a sweep finds them
unretained. -/
def removeRelevance (id : ObserverId) (p : Provider σ) : Provider σ :=
  if Table.contains p.state.regions id then
    p.modifyState fun s => { s with regions := Table.erase s.regions id }.publishCenters
  else p

/-! ## The cycle -/

/-- Follows one observer.  If its footprint has changed, the ready part of it is
reported, and if anything is lacking the whole of it is requested. -/
def followObserver (setup : Setup σ) (id : ObserverId) (position : Option Coord)
    (p : Provider σ) : Provider σ :=
  let p := p.modifyState (·.updateRegion id (Interest.follow position))
  match Table.get? p.state.regions id with
  | none => p
  | some i =>
      if !i.dirty then p
      else
        let needed := i.needed
        let lacking := needed.any fun c => !p.state.isReady c
        let p := p.modifyState (reportReady id needed)
        let p := if lacking then p.requestBox setup (i.expanded .production) else p
        p.modifyState (·.updateRegion id fun i => (i.setUpToDate, []))

/-- Publishes one readiness signal. -/
def publishReady (c : Coord) (s : StreamState σ) : StreamState σ :=
  let s := s.record (.sent (.ready c))
  if s.isResident c then s.updateRegions (Interest.chunkReady c) else s

/-- Publishes the waiting readiness signals. -/
def drainSignals (s : StreamState σ) : StreamState σ :=
  s.signals.foldl (fun s c => publishReady c s) { s with signals := [] }

/-- Sweeps the near cache and tells who is concerned. -/
def compact (setup : Setup σ) (s : StreamState σ) : StreamState σ :=
  let (evicted, s) := Eviction.sweep setup s
  evicted.foldl (fun s c => Eviction.notifyUnloaded c s) s

/-- Follows all observers. -/
def followObservers (setup : Setup σ) (positions : ObserverId → Option Coord)
    (p : Provider σ) : Provider σ :=
  (Table.keys p.state.regions).foldl (fun p id => p.followObserver setup id (positions id)) p

/-- One cycle. -/
def update (setup : Setup σ) (positions : ObserverId → Option Coord) (p : Provider σ) :
    Provider σ :=
  (p.followObservers setup positions).modifyState fun s =>
    compact setup (drainSignals s.publishCenters)

/-! ## The worker -/

/-- One step of the worker. -/
def work? (setup : Setup σ) (p : Provider σ) : Option (Provider σ) :=
  (p.pipeline.work? (Production.handler setup)).map fun pipeline => { p with pipeline := pipeline }

/-- At most `n` steps of the worker. -/
def settle (setup : Setup σ) (n : Nat) (p : Provider σ) : Provider σ :=
  { p with pipeline := p.pipeline.settle (Production.handler setup) n }

/-! ## The end -/

/-- Moves one chunk to the far tier, locked or not, and releases it; counts the
chunks that the tier took. -/
def flushChunk (setup : Setup σ) (acc : Nat × StreamState σ) (c : Coord) : Nat × StreamState σ :=
  let (n, s) := acc
  match s.chunk? c with
  | none => (n, s)
  | some chunk =>
      let s := if chunk.locked then s.note (.flushedLocked c) else s
      let s := s.record (.called (.put chunk.coord))
      match setup.tier.put chunk s.far with
      | .ok far => (n + 1, { s with far := far }.dismiss c)
      | .error cause => (n, (s.note (.flushRefused c cause)).dismiss c)

/-- Moves all chunks to the far tier. -/
def flush (setup : Setup σ) (s : StreamState σ) : Nat × StreamState σ :=
  (Table.keys s.near).foldl (flushChunk setup) (0, s)

/-- Stops production, flushes the near cache and saves the closed far tier.  A
second time it does nothing. -/
def dispose (setup : Setup σ) (p : Provider σ) : Provider σ :=
  if p.disposed then p
  else
    let pipeline := p.pipeline.shutdown (Production.handler setup)
    let (flushed, s) := flush setup pipeline.state
    let s := { s with preparing := [], far := setup.tier.close s.far }
    match setup.obstacle with
    | some cause =>
        { p with
          pipeline := { pipeline with state := s.note (.saveFailed setup.savePath cause) }
          disposed := true }
    | none =>
        let s := s.note (.storeSaved setup.savePath (setup.tier.count s.far))
        { pipeline := { pipeline with state := s.note (.flushed flushed setup.savePath) }
          disposed := true
          saved := some (setup.tier.save s.far) }

/-! ## Questions -/

def isReady (p : Provider σ) (c : Coord) : Bool := p.state.isReady c

def isAvailable (p : Provider σ) (c : Coord) : Bool := p.state.isResident c

def chunk? (p : Provider σ) (c : Coord) : Option Chunk := p.state.chunk? c

def residentCount (p : Provider σ) : Nat := p.state.near.length

def stats (setup : Setup σ) (p : Provider σ) : ProviderStats where
  resident := p.residentCount
  preparing := p.state.preparing.length
  regions := p.state.regions.length
  stored := setup.tier.count p.state.far
  pipeline := p.pipeline.stats

end Provider

end ChunkStream
