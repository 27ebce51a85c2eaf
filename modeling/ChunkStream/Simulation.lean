import ChunkStream.CommandLine
import ChunkStream.Store.Artifact
import ChunkStream.Streaming.Provider
import ChunkStream.Terrain.Flat
import ChunkStream.Walker

/-!
# Simulated runs

A run streams chunks to walkers for a number of ticks and saves the world at
its end.  Each observer of the configuration is a walker.  When several have
the same number, the region follows the first of them, and only the last one
walks.
-/

namespace ChunkStream

/-- The far tier that keeps everything in memory. -/
def FarStore.tier : FarTier FarStore where
  contains c s := s.contains c
  get c s := s.get c
  put c s := s.put c
  close := FarStore.close
  save := FarStore.save
  count := FarStore.count

/-- A walker, and whether it walks. -/
structure Roamer where
  walker : Walker
  walks : Bool
deriving Inhabited

structure Simulation where
  setup : Setup FarStore
  provider : Provider FarStore
  roamers : List Roamer

namespace Simulation

/-- Bound on the tasks done between two ticks. -/
def tasksPerTick : Nat := 16777216

/-- Of the walkers with one number, the last one walks. -/
def roamersOf : List ObserverSpec → List Roamer
  | [] => []
  | s :: rest => ⟨Walker.ofSpec s, rest.all fun r => r.id ≠ s.id⟩ :: roamersOf rest

/-- Where the first walker with a number is. -/
def positions (rs : List Roamer) (id : ObserverId) : Option Coord :=
  (rs.find? fun r => r.walker.id = id).map (·.walker.position)

def setupOf (c : Config) (flat : Bool) : Setup FarStore where
  tier := FarStore.tier
  generator :=
    if flat then Flat.generator { size := c.terrain.chunkSize, thickness := c.terrain.seaLevel }
    else Heightfield.generator c.terrain
  budget := c.provider.budget
  savePath := c.provider.savePath
  obstacle := none

/-- A run before its first tick: all walkers are observed. -/
def start (c : Config) (flat : Bool) (far : FarStore) : Except PipelineError Simulation := do
  let setup := setupOf c flat
  let p ← Provider.start setup c.provider.world c.provider.workers far
  let p := c.observers.foldl
    (fun p s =>
      (p.addRelevance setup s.id (some (Walker.ofSpec s).position) s.distance true).2)
    p
  return ⟨setup, p, roamersOf c.observers⟩

/-- Takes over the distances of a changed configuration. -/
def reload (c : Config) (s : Simulation) : Simulation :=
  { s with
    provider := c.observers.foldl (fun p o => p.updateRelevance o.id o.distance) s.provider }

/-- One tick: the walkers step, a changed configuration is taken over, and the
provider goes through a cycle. -/
def tick (changed : Option Config) (s : Simulation) : Simulation :=
  let roamers := s.roamers.map fun r => if r.walks then { r with walker := r.walker.step } else r
  let s := { s with roamers := roamers }
  let s := match changed with
    | none => s
    | some c => s.reload c
  { s with provider := s.provider.update s.setup (positions s.roamers) }

/-- Lets the worker do what is queued. -/
def settle (s : Simulation) : Simulation :=
  { s with provider := s.provider.settle s.setup tasksPerTick }

/-- Ends the run. -/
def finish (s : Simulation) : Simulation := { s with provider := s.provider.dispose s.setup }

/-- The ticks from number `t` on, `n` of them, each followed by the work it
caused.  `changes` gives the configuration that was changed before a tick. -/
def runFrom (changes : Nat → Option Config) : Nat → Nat → Simulation → Simulation
  | 0, _, s => s
  | n + 1, t, s => runFrom changes n (t + 1) (s.tick (changes t)).settle

end Simulation

end ChunkStream
