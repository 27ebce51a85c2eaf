/-!
# Paths

Where a world's artifact lies below a root directory, and which spellings of a
path mean the same place.
-/

namespace ChunkStream.Path

/-- The second path seen from the first: an absolute path stands for itself,
and one separator is put in where none ends the first. -/
def join (base part : String) : String :=
  if part.startsWith "/" then part
  else if base.isEmpty || base.endsWith "/" then base ++ part
  else base ++ "/" ++ part

/-- Each world has a directory of its own below the root, and in it the artifact
under the world's name. -/
def artifact (root world : String) : String := join (join root world) (world ++ ".dat")

/-- The components that matter: empty ones and single dots do not. -/
def components (path : String) : List String :=
  (path.splitOn "/").filter fun part => part != "" && part != "."

/-- The shortest spelling of a path that means the same place. -/
def plain (path : String) : String :=
  (if path.startsWith "/" then "/" else "") ++ "/".intercalate (components path)

/-- The directory a path lies in. -/
def parent (path : String) : String :=
  (if path.startsWith "/" then "/" else "") ++ "/".intercalate (components path).dropLast

end ChunkStream.Path
