import ChunkStream.Streaming.Interest
import ChunkStream.Work.Pipeline

/-!
# The journal

Everything a provider does that can be seen from outside is entered in its
journal: calls on the generator and the far store, chunks that come and go,
events, callbacks and log lines.
-/

namespace ChunkStream

/-- What the receiver of notifications gets. -/
inductive Event
  | ready (coord : Coord)
  | unloaded (coord : Coord)
deriving DecidableEq, Repr

/-- A call on the generator or the far store. -/
inductive TierCall
  | generate (coord : Coord)
  | finish (coord : Coord)
  | load (coord : Coord)
  | put (coord : Coord)
deriving DecidableEq, Repr

/-- What a provider logs. -/
inductive ProviderNotice
  | pipeline (notice : PipelineNotice)
  | opened (world : String) (budget workers : Nat)
  | alreadyResident (coord : Coord)
  | noPosition (observer : ObserverId)
  | compacting (resident budget : Nat)
  | evictionDeferred (coord : Coord)
  | evictionRefused (coord : Coord) (cause : StoreError)
  | flushedLocked (coord : Coord)
  | flushRefused (coord : Coord) (cause : StoreError)
  | storeSaved (path : String) (count : Nat)
  | flushed (count : Nat) (path : String)
  | saveFailed (path : String) (cause : StoreError)
deriving DecidableEq, Repr

def ProviderNotice.line : ProviderNotice → LogLine
  | .pipeline notice => notice.line
  | .opened world budget workers =>
      ⟨.info, s!"chunk provider for world '{world}': cache budget {budget} chunks, "
        ++ s!"{workers} workers"⟩
  | .alreadyResident coord => ⟨.warn, s!"chunk {coord.text} is already in the near cache"⟩
  | .noPosition observer =>
      ⟨.debug, s!"{ObserverId.text observer} has no position, not tracking it"⟩
  | .compacting resident budget =>
      ⟨.debug, s!"compacting near cache ({resident} resident, budget {budget})"⟩
  | .evictionDeferred coord => ⟨.debug, s!"chunk {coord.text} is locked, deferring eviction"⟩
  | .evictionRefused coord cause =>
      ⟨.warn, s!"could not move chunk {coord.text} to the far store: {cause.message}"⟩
  | .flushedLocked coord =>
      ⟨.warn, s!"chunk {coord.text} is locked elsewhere, flushing it anyway"⟩
  | .flushRefused coord cause =>
      ⟨.error, s!"could not store chunk {coord.text}: {cause.message}"⟩
  | .storeSaved path count => ⟨.info, s!"saved far store to {path} ({count} chunks)"⟩
  | .flushed count path => ⟨.info, s!"flushed {count} chunks, saved far store to {path}"⟩
  | .saveFailed path cause => ⟨.error, s!"error saving chunks to {path}: {cause.message}"⟩

inductive JournalEntry
  | called (call : TierCall)
  | installed (task : Task)
  | evicted (coord : Coord)
  | sent (event : Event)
  | told (observer : ObserverId) (callback : Callback)
  | noted (notice : ProviderNotice)
deriving DecidableEq, Repr

end ChunkStream
