/-!
# Log lines

A log line has a level and a text.  Modules keep what happened as values and
render them as lines only where they are shown.
-/

namespace ChunkStream

inductive Level
  | error
  | warn
  | info
  | debug
deriving DecidableEq, Repr

def Level.text : Level → String
  | .error => "error"
  | .warn => "warn"
  | .info => "info"
  | .debug => "debug"

/-- Grave levels come first. -/
def Level.rank : Level → Nat
  | .error => 0
  | .warn => 1
  | .info => 2
  | .debug => 3

structure LogLine where
  level : Level
  text : String
deriving DecidableEq, Repr

/-- Order by level, then by text. -/
def LogLine.le (a b : LogLine) : Bool :=
  a.level.rank < b.level.rank || (a.level == b.level && a.text ≤ b.text)

end ChunkStream
