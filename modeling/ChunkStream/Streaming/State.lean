import ChunkStream.Streaming.Journal
import ChunkStream.Table

/-!
# The state of a provider

Chunks are resident in the near cache, or stored in the far tier, or both.
Besides these the state holds the coordinates whose production is claimed, the
coordinates announced as ready, the readiness signals that the next update will
drain, the tracked regions and the centers published for ranking tasks.

A resident chunk carries its age, a number that no other residency ever gets.
A chunk that leaves the near cache is kept, without its content, among the
departed ones, for whoever still holds it.

The far tier is a parameter: any state with these operations will do.
-/

namespace ChunkStream

/-- The operations of a far tier over its state. -/
structure FarTier (σ : Type) where
  contains : Coord → σ → Bool
  get : Coord → σ → Except StoreError (Option Chunk)
  put : Chunk → σ → Except StoreError σ
  close : σ → σ
  save : σ → List UInt8
  count : σ → Nat

/-- What a provider is built on.  `obstacle` is the reason why nothing can be
written at the save path, if there is one. -/
structure Setup (σ : Type) where
  tier : FarTier σ
  generator : Generator
  budget : Nat
  savePath : String
  obstacle : Option StoreError

structure Resident where
  chunk : Chunk
  age : Nat
deriving DecidableEq, Repr

structure StreamState (σ : Type) where
  near : Table Coord Resident
  departed : List Resident
  preparing : List Coord
  announced : List Coord
  signals : List Coord
  regions : Table ObserverId Interest
  centers : List Coord
  epoch : Nat
  nextAge : Nat
  far : σ
  /-- The latest entry comes first. -/
  journal : List JournalEntry

namespace StreamState

variable {σ : Type}

def start (far : σ) : StreamState σ where
  near := []
  departed := []
  preparing := []
  announced := []
  signals := []
  regions := []
  centers := []
  epoch := 0
  nextAge := 0
  far := far
  journal := []

def record (e : JournalEntry) (s : StreamState σ) : StreamState σ :=
  { s with journal := e :: s.journal }

def note (n : ProviderNotice) (s : StreamState σ) : StreamState σ := s.record (.noted n)

/-- The journal in the order of events. -/
def history (s : StreamState σ) : List JournalEntry := s.journal.reverse

/-! ## Residency and readiness -/

def resident? (s : StreamState σ) (c : Coord) : Option Resident := Table.get? s.near c

def chunk? (s : StreamState σ) (c : Coord) : Option Chunk := (s.resident? c).map (·.chunk)

def isResident (s : StreamState σ) (c : Coord) : Bool := (s.resident? c).isSome

def isResidentComplete (s : StreamState σ) (c : Coord) : Bool :=
  (s.resident? c).any (·.chunk.isComplete)

/-- The chunk and its whole neighbourhood are resident and complete. -/
def isReady (s : StreamState σ) (c : Coord) : Bool :=
  s.isResidentComplete c && (Box.neighborhood c).toList.all s.isResidentComplete

def isSurrounded (s : StreamState σ) (c : Coord) : Bool :=
  (Box.neighborhood c).toList.all s.isResident

/-- Changes a resident chunk. -/
def adjustChunk (c : Coord) (f : Chunk → Chunk) (s : StreamState σ) : StreamState σ :=
  { s with near := Table.adjust s.near c fun r => { r with chunk := f r.chunk } }

/-- Makes a chunk resident.  A chunk that is resident already stays, and the new
one is dropped. -/
def install (c : Coord) (chunk : Chunk) (s : StreamState σ) : StreamState σ :=
  if s.isResident c then s.note (.alreadyResident c)
  else
    { s with
      near := Table.insert s.near c ⟨chunk, s.nextAge⟩
      nextAge := s.nextAge + 1 }

/-- Takes a chunk out of the near cache and releases its content. -/
def dismiss (c : Coord) (s : StreamState σ) : StreamState σ :=
  match s.resident? c with
  | none => s
  | some r =>
      { s with
        near := Table.erase s.near c
        departed := { r with chunk := r.chunk.release } :: s.departed }

/-! ## Announcing readiness -/

/-- Signals a coordinate whatever its neighbourhood. -/
def signal (c : Coord) (s : StreamState σ) : StreamState σ := { s with signals := s.signals ++ [c] }

/-- Signals a coordinate once per residency. -/
def announce (c : Coord) (s : StreamState σ) : StreamState σ :=
  if c ∈ s.announced then s else { s with announced := c :: s.announced }.signal c

/-- Announces what is ready among a coordinate and its neighbours. -/
def announceAround (c : Coord) (s : StreamState σ) : StreamState σ :=
  (Box.neighborhood c).toList.foldl (fun s n => if s.isReady n then s.announce n else s) s

/-! ## Regions -/

def tell (i : Interest) (callbacks : List Callback) (s : StreamState σ) : StreamState σ :=
  if i.listening then callbacks.foldl (fun s cb => s.record (.told i.observer cb)) s else s

/-- Applies an operation to one region and makes its callbacks. -/
def updateRegion (id : ObserverId) (f : Interest → Interest × List Callback)
    (s : StreamState σ) : StreamState σ :=
  match Table.get? s.regions id with
  | none => s
  | some i =>
      let (i, callbacks) := f i
      { s with regions := Table.adjust s.regions id fun _ => i }.tell i callbacks

/-- Applies an operation to every region. -/
def updateRegions (f : Interest → Interest × List Callback) (s : StreamState σ) :
    StreamState σ :=
  (Table.keys s.regions).foldl (fun s id => s.updateRegion id f) s

/-- Publishes the centers of the regions for ranking tasks; the epoch moves on
when they differ from those before. -/
def publishCenters (s : StreamState σ) : StreamState σ :=
  let next := Coord.sorted ((Table.values s.regions).map (·.center))
  if next = s.centers then s else { s with centers := next, epoch := s.epoch + 1 }

/-- The regions keep a coordinate from being evicted. -/
def isRetained (s : StreamState σ) (c : Coord) : Bool :=
  (Table.values s.regions).any fun i => i.expandedContains .retention c

end StreamState

end ChunkStream
