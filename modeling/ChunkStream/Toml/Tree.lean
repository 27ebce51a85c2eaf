import ChunkStream.Toml.Value

/-!
# TOML trees

A document grows by assignments and headers, and the rules on what may be
defined twice depend on how a table came to be: by a header of its own, by a
header that only passes through it, or by a dotted key.  A tree keeps that with
every table.
-/

namespace ChunkStream.Toml

/-- How a table came to be. -/
inductive Origin
  | header
  | implied
  | dotted
deriving DecidableEq

/-- A value, a table, or the tables of one repeated header, of which only the
last is still open. -/
inductive Node
  | leaf (value : Value)
  | table (origin : Origin) (fields : List (String × Node))
  | tables (closed : List (List (String × Node))) (last : List (String × Node))
deriving Inhabited

abbrev Fields := List (String × Node)

mutual

def Node.toValue : Node → Value
  | .leaf value => value
  | .table _ fields => .table (Fields.toValues fields)
  | .tables closed last => .array (Fields.tableValues closed ++ [.table (Fields.toValues last)])

def Fields.toValues : List (String × Node) → List (String × Value)
  | [] => []
  | (key, node) :: rest => (key, node.toValue) :: Fields.toValues rest

def Fields.tableValues : List (List (String × Node)) → List Value
  | [] => []
  | fields :: rest => .table (Fields.toValues fields) :: Fields.tableValues rest

end

namespace Fields

def get? (key : String) : Fields → Option Node
  | [] => none
  | (k, node) :: rest => if k = key then some node else get? key rest

/-- Puts a node in the place of the one under a key, or at the end. -/
def put (key : String) (node : Node) : Fields → Fields
  | [] => [(key, node)]
  | (k, old) :: rest => if k = key then (k, node) :: rest else (k, old) :: put key node rest

/-- A change of a table, which may be refused. -/
abbrev Change := Origin → Fields → Option (Origin × Fields)

/-- Changes the table at the end of a path, making the tables on the way.  A
dotted path may not enter a table that has a header of its own. -/
def descend (dotted : Bool) (change : Change) : List String → Change
  | [], origin, fields => change origin fields
  | key :: path, origin, fields =>
      match get? key fields with
      | none => do
          let (o, sub) ← descend dotted change path (if dotted then .dotted else .implied) []
          return (origin, put key (.table o sub) fields)
      | some (.leaf _) => none
      | some (.tables closed last) => do
          let (_, sub) ← descend dotted change path .header last
          return (origin, put key (.tables closed sub) fields)
      | some (.table o sub) =>
          if dotted && o = .header then none
          else do
            let (o, sub) ← descend dotted change path o sub
            return (origin, put key (.table o sub) fields)

/-- Assigns a value to the last key of a dotted path.  Tables made by dotted
keys take assignments through dotted keys only. -/
def assign (path : List String) (value : Value) : Change :=
  let change : Change := fun origin fields =>
    match path.getLast? with
    | none => none
    | some key =>
        if (origin = .dotted) ↔ (path.dropLast = []) then none
        else if (get? key fields).isSome then none
        else some (origin, put key (.leaf value) fields)
  descend true change path.dropLast

/-- Opens a table under a header. -/
def openTable (path : List String) : Change :=
  let change : Change := fun origin fields =>
    match path.getLast? with
    | none => none
    | some key =>
        match get? key fields with
        | none => some (origin, put key (.table .header []) fields)
        | some (.table .implied sub) => some (origin, put key (.table .header sub) fields)
        | some _ => none
  descend false change path.dropLast

/-- Opens one more table under a repeated header. -/
def openElement (path : List String) : Change :=
  let change : Change := fun origin fields =>
    match path.getLast? with
    | none => none
    | some key =>
        match get? key fields with
        | none => some (origin, put key (.tables [] []) fields)
        | some (.tables closed last) =>
            some (origin, put key (.tables (closed ++ [last]) []) fields)
        | some _ => none
  descend false change path.dropLast

end Fields

end ChunkStream.Toml
