import ChunkStream.Single
import ChunkStream.Toml.Value
import ChunkStream.Word

/-!
# Decoding TOML values

Readers of values as numbers, texts and lists, and of tables as records.  A
record is given by a table, whose unknown keys are ignored, or by an array,
which fills the fields by position.  A date or time in place of a table counts
as one without known keys.
-/

namespace ChunkStream.Toml

namespace Value

/-- An integer that is a word. -/
def word? : Value → Option Int32
  | integer n => if Word.Fits n then some (Int32.ofInt n) else none
  | _ => none

/-- A natural number below a bound. -/
def natBelow? (bound : Nat) : Value → Option Nat
  | integer n => if 0 ≤ n ∧ n < bound then some n.toNat else none
  | _ => none

def text? : Value → Option String
  | text content => some content
  | _ => none

/-- A number in single precision; integers are rounded at once, decimals by way
of double precision. -/
def single? : Value → Option Single
  | integer n => some (.ofFloat32 (Int64.ofInt n).toFloat32)
  | decimal v => some (.ofFloat v)
  | nan negative => some (.nan negative)
  | _ => none

def array? : Value → Option (List Value)
  | array items => some items
  | _ => none

end Value

/-- The fields of a record, by name or by position. -/
inductive Record
  | named (fields : List (String × Value))
  | positional (items : List Value)

namespace Record

def ofValue? : Value → Option Record
  | .table fields => some (.named fields)
  | .array items => some (.positional items)
  | .moment => some (.named [])
  | _ => none

/-- The value of the field with a name and a position. -/
def field? (r : Record) (name : String) (position : Nat) : Option Value :=
  match r with
  | named fields => fields.lookup name
  | positional items => items[position]?

/-- A field that may be left out. -/
def get {α : Type} (r : Record) (name : String) (position : Nat) (read : Value → Option α)
    (default : α) : Option α :=
  match r.field? name position with
  | none => some default
  | some v => read v

/-- A field that must be there. -/
def need {α : Type} (r : Record) (name : String) (position : Nat) (read : Value → Option α) :
    Option α :=
  (r.field? name position).bind read

end Record

end ChunkStream.Toml
