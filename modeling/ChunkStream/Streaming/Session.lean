import ChunkStream.Streaming.Provider

/-!
# Sessions

A session is a provider together with what acts on it from outside: observers
that move, and holders of chunks who lock and edit them.  An `Act` is one thing
that can happen, a call on the provider and a step of its worker included, and
a run of a session is a list of acts.

A handle on a chunk is its age.  It stays good when the chunk leaves the near
cache, and never means a later chunk at the same coordinate.
-/

namespace ChunkStream

/-- A change to a chunk by somebody who holds it. -/
inductive Edit
  | completion (s : Completion)
  | block (cell : Cell) (block : Block)
  | release
deriving DecidableEq, Repr

/-- The changed chunk; nothing when there is no content to change. -/
def Edit.apply (c : Chunk) : Edit → Except Fault (Option Chunk)
  | .completion s => .ok (some (c.setCompletion s))
  | .block p b => c.set p b
  | .release => .ok (some c.release)

/-- What can happen in a session. -/
inductive Act
  | move (id : ObserverId) (position : Option Coord)
  | track (id : ObserverId) (distance : UInt32) (listening : Bool)
  | setDistance (id : ObserverId) (distance : UInt32)
  | untrack (id : ObserverId)
  | update
  | request (c : Coord)
  | requestBox (b : Box)
  | markReady (c : Coord)
  | work
  | keep (c : Coord)
  | lock (c : Coord)
  | unlock (c : Coord)
  | edit (c : Coord) (e : Edit)
  | dispose
deriving DecidableEq, Repr

/-- `kept` has the handles that were kept and `locks` those that are locked,
each by the coordinate they were taken at. -/
structure Session (σ : Type) where
  provider : Provider σ
  places : Table ObserverId (Option Coord)
  kept : Table Coord Nat
  locks : Table Coord Nat

namespace Session

variable {σ : Type}

def ofProvider (p : Provider σ) : Session σ := ⟨p, [], [], []⟩

/-- Where an observer is; one that was never placed is nowhere. -/
def position (s : Session σ) (id : ObserverId) : Option Coord := (Table.get? s.places id).join

def mapProvider (f : Provider σ → Provider σ) (s : Session σ) : Session σ :=
  { s with provider := f s.provider }

/-- Begins to track an observer where it is; tells whether it is tracked. -/
def track (setup : Setup σ) (id : ObserverId) (distance : UInt32) (listening : Bool)
    (s : Session σ) : Bool × Session σ :=
  let (tracked, p) := s.provider.addRelevance setup id (s.position id) distance listening
  (tracked, { s with provider := p })

/-! ## Handles -/

/-- The chunk a handle is for. -/
def chunk? (s : Session σ) (handle : Nat) : Option Chunk :=
  let st := s.provider.state
  ((Table.values st.near ++ st.departed).find? (·.age = handle)).map (·.chunk)

def adjust (handle : Nat) (f : Chunk → Chunk) (s : Session σ) : Session σ :=
  let change (r : Resident) := if r.age = handle then { r with chunk := f r.chunk } else r
  s.mapProvider (·.modifyState fun st =>
    { st with near := Table.mapValues st.near change, departed := st.departed.map change })

/-- The handle on the resident chunk at a coordinate, else the one kept. -/
def handle? (s : Session σ) (c : Coord) : Option Nat :=
  ((s.provider.state.resident? c).map (·.age)) <|> Table.get? s.kept c

/-- Keeps the handle on a resident chunk; tells whether there is one. -/
def keep (c : Coord) (s : Session σ) : Bool × Session σ :=
  match s.provider.state.resident? c with
  | none => (false, s)
  | some r => (true, { s with kept := Table.insert s.kept c r.age })

/-- Gives back the lock that was taken at a coordinate; tells whether there was
one. -/
def unlock (c : Coord) (s : Session σ) : Bool × Session σ :=
  match Table.get? s.locks c with
  | none => (false, s)
  | some handle => (true, { s.adjust handle Chunk.unlock with locks := Table.erase s.locks c })

/-- Locks the chunk at a coordinate, unless somebody has; tells whether it
did. -/
def lock (c : Coord) (s : Session σ) : Bool × Session σ :=
  match s.handle? c with
  | none => (false, s)
  | some handle =>
      if (s.chunk? handle).any (·.locked) then (false, s)
      else
        let s := (s.unlock c).2
        (true, { s.adjust handle Chunk.lock with locks := Table.insert s.locks c handle })

/-- Edits the chunk at a coordinate; tells whether there was something to
edit. -/
def edit (c : Coord) (e : Edit) (s : Session σ) : Except Fault (Bool × Session σ) :=
  match s.handle? c with
  | none => .ok (false, s)
  | some handle =>
      match s.chunk? handle with
      | none => .ok (false, s)
      | some chunk => do
          match ← e.apply chunk with
          | none => return (false, s)
          | some next => return (true, s.adjust handle fun _ => next)

/-! ## Runs -/

/-- One act.  An edit outside of a chunk's bounds changes nothing. -/
def step (setup : Setup σ) (s : Session σ) : Act → Session σ
  | .move id position => { s with places := Table.insert s.places id position }
  | .track id distance listening => (s.track setup id distance listening).2
  | .setDistance id distance => s.mapProvider (·.updateRelevance id distance)
  | .untrack id => s.mapProvider (·.removeRelevance id)
  | .update => s.mapProvider (·.update setup s.position)
  | .request c => s.mapProvider (·.requestChunk setup c)
  | .requestBox b => s.mapProvider (·.requestBox setup b)
  | .markReady c => s.mapProvider (·.markReady c)
  | .work => s.mapProvider fun p => (p.work? setup).getD p
  | .keep c => (s.keep c).2
  | .lock c => (s.lock c).2
  | .unlock c => (s.unlock c).2
  | .edit c e =>
      match s.edit c e with
      | .ok (_, s) => s
      | .error _ => s
  | .dispose => s.mapProvider (·.dispose setup)

def run (setup : Setup σ) (acts : List Act) (s : Session σ) : Session σ :=
  acts.foldl (step setup) s

end Session

end ChunkStream
