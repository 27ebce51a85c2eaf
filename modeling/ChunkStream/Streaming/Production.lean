import ChunkStream.Streaming.State

/-!
# Production

A coordinate is claimed before its task is queued, and the claim ends with the
task, however it ends.  A produced chunk becomes resident and has its
neighbourhood reviewed.  A review finishes an incomplete chunk once all its
neighbours are resident, and announces what has become ready.  It never waits
for a lock: a chunk that somebody holds is reviewed again later.
-/

namespace ChunkStream.Production

variable {σ : Type}

def priority (s : StreamState σ) : Priority := ⟨s.epoch, s.centers⟩

/-- Claims a coordinate that is neither resident nor claimed; what the far tier
holds is loaded, all else is generated. -/
def prepare (setup : Setup σ) (c : Coord) (s : StreamState σ) : Option Task × StreamState σ :=
  if s.isResident c ∨ c ∈ s.preparing then (none, s)
  else
    let task := if setup.tier.contains c s.far then Task.load c else Task.generate c
    (some task, { s with preparing := c :: s.preparing })

/-- Ends the claim on a coordinate. -/
def unclaim (c : Coord) (s : StreamState σ) : StreamState σ :=
  { s with preparing := s.preparing.erase c }

/-- Gets the chunk of a task from the tier or the generator. -/
def acquire (setup : Setup σ) (task : Task) (s : StreamState σ) :
    Except (Failure TaskError) Chunk × StreamState σ :=
  match task with
  | .load c =>
      (match setup.tier.get c s.far with
        | .error cause => .error (.error (.store cause))
        | .ok none => .error (.error (.missing c))
        | .ok (some chunk) => .ok chunk,
        s.record (.called (.load c)))
  | t =>
      (match setup.generator.generate t.coord with
        | .error (.error cause) => .error (.error (.generate cause))
        | .error (.fault cause) => .error (.fault cause)
        | .ok chunk => .ok chunk,
        s.record (.called (.generate t.coord)))

/-- Runs a task that makes a chunk resident. -/
def produce (setup : Setup σ) (cancelled : Bool) (task : Task) (s : StreamState σ) :
    Ran (StreamState σ) :=
  let c := task.coord
  if cancelled then
    { state := unclaim c s, outcome := .error (.error .cancelled) }
  else
    match acquire setup task s with
    | (.error failure, s) => { state := unclaim c s, outcome := .error failure }
    | (.ok chunk, s) =>
        let s := unclaim c ((s.install c chunk).record (.installed task))
        { state := if s.isResidentComplete c then s.announceAround c else s
          reviews := [Box.neighborhood c] }

/-- Announces around a reviewed chunk if it is complete. -/
def concludeReview (c : Coord) (s : StreamState σ) : Ran (StreamState σ) :=
  { state := if s.isResidentComplete c then s.announceAround c else s }

/-- Finishes a resident chunk in place. -/
def finishChunk (setup : Setup σ) (c : Coord) (chunk : Chunk) (s : StreamState σ) :
    Ran (StreamState σ) :=
  let s := s.record (.called (.finish chunk.coord))
  match setup.generator.finish chunk with
  | (chunk, .ok completion) =>
      concludeReview c (s.adjustChunk c fun _ => chunk.setCompletion completion)
  | (chunk, .error (.error cause)) =>
      { state := s.adjustChunk c fun _ => chunk, outcome := .error (.error (.generate cause)) }
  | (chunk, .error (.fault cause)) =>
      { state := s.adjustChunk c fun _ => chunk, outcome := .error (.fault cause) }

/-- Runs a review. -/
def review (setup : Setup σ) (c : Coord) (s : StreamState σ) : Ran (StreamState σ) :=
  match s.chunk? c with
  | none => { state := s }
  | some chunk =>
      if chunk.isComplete then concludeReview c s
      else if !s.isSurrounded c then { state := s }
      else if chunk.locked then { state := s, reviews := [⟨c, c⟩] }
      else finishChunk setup c chunk s

def run (setup : Setup σ) (cancelled : Bool) (task : Task) (s : StreamState σ) :
    Ran (StreamState σ) :=
  match task with
  | .review c => review setup c s
  | t => produce setup cancelled t s

/-- A task that will never run gives its claim back. -/
def discard (task : Task) (s : StreamState σ) : StreamState σ :=
  if task.isReview then s else unclaim task.coord s

/-- Production as the handler of a pipeline. -/
def handler (setup : Setup σ) : Handler (StreamState σ) where
  priority := priority
  prepare := prepare setup
  run := run setup
  discard := discard
  notify n s := s.note (.pipeline n)

end ChunkStream.Production
