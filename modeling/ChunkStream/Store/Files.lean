import ChunkStream.Store.Path
import ChunkStream.Table

/-!
# Files

Contents under plain paths: what a run of the program finds and leaves.
-/

namespace ChunkStream

abbrev Files := Table String (List UInt8)

namespace Files

def read? (files : Files) (path : String) : Option (List UInt8) :=
  Table.get? files (Path.plain path)

def write (files : Files) (path : String) (content : List UInt8) : Files :=
  Table.insert files (Path.plain path) content

/-- What a path has below a directory, when it lies there. -/
def below? : List String → List String → Option String
  | [], name :: _ => some name
  | d :: directory, p :: path => if d = p then below? directory path else none
  | _, _ => none

/-- Names in a directory, in order. -/
def names (files : Files) (directory : String) : List String :=
  let found := (Table.keys files).filterMap fun path =>
    below? (Path.components directory) (Path.components path)
  found.eraseDups.mergeSort fun a b => a ≤ b

end Files

end ChunkStream
