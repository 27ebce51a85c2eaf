import ChunkStream.Store.Path
import ChunkStream.Streaming.Interest
import ChunkStream.Terrain.Heightfield
import ChunkStream.Toml.Decode
import ChunkStream.Toml.Document

/-!
# Configuration

What a run is configured with: the provider, the terrain, the observers and the
clock.  Every field but an observer's number has a default, and an empty
document stands for the default configuration.
-/

namespace ChunkStream

structure ProviderConfig where
  workers : Nat := 8
  memoryBudgetMib : Nat := 1024
  cacheBudget : Option Nat := none
  saveRoot : String := "saves"
  world : String := "world"
deriving BEq, Repr, Inhabited

namespace ProviderConfig

/-- How many chunks may be resident: two for each MiB, unless the number is
given. -/
def budget (c : ProviderConfig) : Nat :=
  c.cacheBudget.getD (min (2 * c.memoryBudgetMib) (Size.limit - 1))

def savePath (c : ProviderConfig) : String := Path.artifact c.saveRoot c.world

end ProviderConfig

/-- An observer that walks with a constant velocity, in chunks per tick. -/
structure ObserverSpec where
  id : ObserverId
  start : Coord := .origin
  velocityX : Single := Single.ofFloat32 0.0
  velocityZ : Single := Single.ofFloat32 0.0
  distance : UInt32 := 4
deriving BEq, Repr, Inhabited

structure Config where
  provider : ProviderConfig := {}
  terrain : TerrainParams := {}
  observers : List ObserverSpec := [{ id := 1, velocityX := Single.ofFloat32 0.25 }]
  ticks : Nat := 200
  tickMillis : Nat := 50
deriving BEq, Repr, Inhabited

/-! ## Reading a configuration -/

namespace Config

open Toml

/-- Sizes and counts are below this bound. -/
def size? : Value → Option Nat := Value.natBelow? Size.limit

def provider? (v : Value) : Option ProviderConfig := do
  let r ← Record.ofValue? v
  let d : ProviderConfig := {}
  return {
    workers := ← r.get "workers" 0 size? d.workers
    memoryBudgetMib := ← r.get "memory_budget_mib" 1 size? d.memoryBudgetMib
    cacheBudget := ← r.get "cache_budget" 2 (fun v => some <$> size? v) d.cacheBudget
    saveRoot := ← r.get "save_root" 3 Value.text? d.saveRoot
    world := ← r.get "world" 4 Value.text? d.world }

def terrain? (v : Value) : Option TerrainParams := do
  let r ← Record.ofValue? v
  let d : TerrainParams := {}
  return {
    seed := ← r.get "seed" 0 Value.word? d.seed
    chunkSize := ← r.get "chunk_size" 1 size? d.chunkSize
    frequency := ← r.get "height_frequency" 2 Value.single? d.frequency
    minHeight := ← r.get "min_height" 3 Value.word? d.minHeight
    maxHeight := ← r.get "max_height" 4 Value.word? d.maxHeight
    seaLevel := ← r.get "sea_level" 5 Value.word? d.seaLevel
    dirtDepth := ← r.get "dirt_depth" 6 Value.word? d.dirtDepth }

/-- A place is three words; what follows them is ignored. -/
def place? (v : Value) : Option Coord := do
  match ← v.array? with
  | x :: y :: z :: _ => return ⟨← x.word?, ← y.word?, ← z.word?⟩
  | _ => none

/-- A velocity is two numbers; what follows them is ignored. -/
def velocity? (v : Value) : Option (Single × Single) := do
  match ← v.array? with
  | x :: z :: _ => return (← x.single?, ← z.single?)
  | _ => none

def observer? (v : Value) : Option ObserverSpec := do
  let r ← Record.ofValue? v
  let id ← r.need "id" 0 size?
  let d : ObserverSpec := { id := UInt64.ofNat id }
  let start ← r.get "start" 1 place? d.start
  let (x, z) ← r.get "velocity" 2 velocity? (d.velocityX, d.velocityZ)
  let distance ← r.get "distance" 3 (Value.natBelow? 4294967296) d.distance.toNat
  return { d with start := start, velocityX := x, velocityZ := z,
                  distance := UInt32.ofNat distance }

def observers? (v : Value) : Option (List ObserverSpec) := do (← v.array?).mapM observer?

def ofTable? (fields : List (String × Value)) : Option Config := do
  let r := Record.named fields
  let d : Config := {}
  return {
    provider := ← r.get "provider" 0 provider? d.provider
    terrain := ← r.get "generator" 1 terrain? d.terrain
    observers := ← r.get "observers" 2 observers? d.observers
    ticks := ← r.get "ticks" 3 size? d.ticks
    tickMillis := ← r.get "tick_ms" 4 size? d.tickMillis }

end Config

/-- Why a configuration file is refused. -/
inductive ConfigError
  | unreadable (reason : String)
  | malformed
deriving DecidableEq, Repr

def ConfigError.message : ConfigError → String
  | .unreadable reason => reason
  | .malformed => "the configuration is not valid TOML or has a field of the wrong type"

namespace Config

/-- The configuration in the text of a document. -/
def ofText (text : String) : Except ConfigError Config :=
  match Toml.parse? text >>= ofTable? with
  | none => .error .malformed
  | some c => .ok c

/-- The configuration in a file, which must be UTF-8. -/
def ofBytes (bytes : ByteArray) : Except ConfigError Config :=
  match String.fromUTF8? bytes with
  | none => .error (.unreadable "stream did not contain valid UTF-8")
  | some text => ofText text

end Config

end ChunkStream
