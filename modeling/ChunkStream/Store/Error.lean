import ChunkStream.Coord

/-!
# Errors of the far store
-/

namespace ChunkStream

inductive StoreError
  | io (reason : String)
  | encode (reason : String)
  | decompress (reason : String)
  | versionMismatch (found : Nat)
  | released (coord : Coord)
  | closed
deriving DecidableEq, Repr

/-- The version of the artifact format that is read and written. -/
def formatVersion : Nat := 1

def StoreError.message : StoreError → String
  | .io reason => s!"io error: {reason}"
  | .encode reason => s!"encode error: {reason}"
  | .decompress reason => s!"decompress error: {reason}"
  | .versionMismatch found => s!"store artifact version {found}, expected {formatVersion}"
  | .released coord => s!"chunk {coord.text} has no content to store"
  | .closed => "store is closed"

end ChunkStream
