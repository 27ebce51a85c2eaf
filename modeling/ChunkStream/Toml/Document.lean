import ChunkStream.Toml.Quoted
import ChunkStream.Toml.Tree

/-!
# TOML documents

Keys, values and statements, and the table that a document describes.  Nesting
is limited, and so is the length of a dotted key.
-/

namespace ChunkStream.Toml

/-- Values may be nested less deeply than this, and keys have fewer parts. -/
def nestingLimit : Nat := 80

def dropBlanks (chars : List Char) : List Char := chars.dropWhile Quoted.isBlank

/-- Drops blanks, line breaks and comments; nothing when a character is not
allowed in a comment. -/
def dropFillerFrom : Bool → List Char → Option (List Char)
  | _, [] => some []
  | _, '\n' :: rest => dropFillerFrom false rest
  | _, '\r' :: '\n' :: rest => dropFillerFrom false rest
  | true, c :: rest => if Quoted.isPlain c then dropFillerFrom true rest else none
  | false, ' ' :: rest => dropFillerFrom false rest
  | false, '\t' :: rest => dropFillerFrom false rest
  | false, '#' :: rest => dropFillerFrom true rest
  | false, rest => some rest

def dropFiller (chars : List Char) : Option (List Char) := dropFillerFrom false chars

/-- What follows the end of the line, before which only blanks and a comment
may stand. -/
def endOfLine (chars : List Char) : Option (List Char) :=
  let rest :=
    match dropBlanks chars with
    | '#' :: comment => comment.dropWhile Quoted.isPlain
    | rest => rest
  match rest with
  | [] => some []
  | '\n' :: rest => some rest
  | '\r' :: '\n' :: rest => some rest
  | _ => none

/-! ## Keys -/

def isKeyChar (c : Char) : Bool :=
  Scalar.isDigit c || 'a' ≤ c && c ≤ 'z' || 'A' ≤ c && c ≤ 'Z' || c == '_' || c == '-'

/-- Reads one part of a key. -/
def simpleKey (chars : List Char) : Option (String × List Char) :=
  match chars with
  | '"' :: rest => Quoted.basic chars.length [] rest
  | '\'' :: rest => Quoted.literal rest
  | chars =>
      match chars.span isKeyChar with
      | ([], _) => none
      | (key, rest) => some (String.ofList key, rest)

/-- Reads the parts of a dotted key and the blanks around them. -/
def keyParts : Nat → List Char → Option (List String × List Char)
  | 0, _ => none
  | fuel + 1, chars => do
      let (key, rest) ← simpleKey (dropBlanks chars)
      match dropBlanks rest with
      | '.' :: rest => do
          let (keys, rest) ← keyParts fuel rest
          return (key :: keys, rest)
      | rest => return ([key], rest)

def dottedKey (chars : List Char) : Option (List String × List Char) := do
  let (keys, rest) ← keyParts chars.length chars
  if keys.length < nestingLimit then return (keys, rest) else none

/-- Reads a key and the sign of equality. -/
def assignee (chars : List Char) : Option (List String × List Char) := do
  let (keys, rest) ← dottedKey chars
  match rest with
  | '=' :: rest => return (keys, dropBlanks rest)
  | _ => none

/-! ## Values -/

/-- Characters that end a scalar. -/
def endsScalar (c : Char) : Bool :=
  Quoted.isBlank c || c == '\n' || c == '\r' || c == ',' || c == ']' || c == '\x7d' || c == '#'

/-- Reads a scalar.  A time may follow its date after a single space. -/
def scalar (chars : List Char) : Option (Value × List Char) := do
  let (token, rest) := chars.span (!endsScalar ·)
  let value ← Scalar.recognize token
  match Scalar.isDate token, rest with
  | true, ' ' :: c :: after =>
      if Scalar.isDigit c then
        let (token, rest) := (c :: after).span (!endsScalar ·)
        if Scalar.isTimeWithOffset token then return (value, rest) else none
      else return (value, rest)
  | _, _ => return (value, rest)

mutual

/-- Reads a value at a depth of nesting. -/
def value : Nat → Nat → List Char → Option (Value × List Char)
  | 0, _, _ => none
  | fuel + 1, depth, chars =>
      match chars with
      | '[' :: rest =>
          if nestingLimit ≤ depth + 1 then none else items fuel (depth + 1) [] rest
      | '\x7b' :: rest =>
          if nestingLimit ≤ depth + 1 then none else inlineFields fuel (depth + 1) [] rest
      | '"' :: _ => (Quoted.text chars).map fun (s, rest) => (.text s, rest)
      | '\'' :: _ => (Quoted.text chars).map fun (s, rest) => (.text s, rest)
      | chars => scalar chars

/-- Reads the items of an array, after those in `done`, which has the latest
first. -/
def items : Nat → Nat → List Value → List Char → Option (Value × List Char)
  | 0, _, _, _ => none
  | fuel + 1, depth, done, chars => do
      match ← dropFiller chars with
      | ']' :: rest => return (.array done.reverse, rest)
      | chars =>
          let (v, rest) ← value fuel depth chars
          match ← dropFiller rest with
          | ',' :: rest => items fuel depth (v :: done) rest
          | ']' :: rest => return (.array (v :: done).reverse, rest)
          | _ => none

/-- Reads the fields of an inline table, after those in `done`. -/
def inlineFields : Nat → Nat → Fields → List Char → Option (Value × List Char)
  | 0, _, _, _ => none
  | fuel + 1, depth, done, chars =>
      match dropBlanks chars, done with
      | '\x7d' :: rest, [] => some (.table [], rest)
      | chars, done => do
          let (path, rest) ← assignee chars
          let (v, rest) ← value fuel depth rest
          let (_, done) ← Fields.assign path v .header done
          match dropBlanks rest with
          | ',' :: rest => inlineFields fuel depth done rest
          | '\x7d' :: rest => return (.table (Fields.toValues done), rest)
          | _ => none

end

/-! ## Statements -/

inductive Statement
  | assign (path : List String) (value : Value)
  | openTable (path : List String)
  | openElement (path : List String)

/-- Reads one statement. -/
def statement (chars : List Char) : Option (Statement × List Char) :=
  match chars with
  | '[' :: '[' :: rest => do
      match ← dottedKey rest with
      | (path, ']' :: ']' :: rest) => return (.openElement path, rest)
      | _ => none
  | '[' :: rest => do
      match ← dottedKey rest with
      | (path, ']' :: rest) => return (.openTable path, rest)
      | _ => none
  | chars => do
      let (path, rest) ← assignee chars
      let (v, rest) ← value (2 * rest.length + 2) 0 rest
      return (.assign path v, rest)

/-- Reads statements to the end, each on a line of its own. -/
def statements : Nat → List Statement → List Char → Option (List Statement)
  | 0, _, _ => none
  | fuel + 1, done, chars => do
      match ← dropFiller chars with
      | [] => return done.reverse
      | chars =>
          let (s, rest) ← statement chars
          let rest ← endOfLine rest
          statements fuel (s :: done) rest

/-- A document under way: its fields, and the path of the open table. -/
structure Draft where
  fields : Fields
  path : List String

namespace Draft

def change (d : Draft) (c : Fields.Change) : Option Fields := do
  let (_, fields) ← c .header d.fields
  return fields

/-- Carries one statement out. -/
def apply (d : Draft) : Statement → Option Draft
  | .assign path v => do
      let fields ← d.change (Fields.descend false (Fields.assign path v) d.path)
      return { d with fields := fields }
  | .openTable path => do
      let fields ← d.change (Fields.openTable path)
      return ⟨fields, path⟩
  | .openElement path => do
      let fields ← d.change (Fields.openElement path)
      return ⟨fields, path⟩

end Draft

/-- A byte-order mark at the beginning is not part of the document. -/
def dropByteOrderMark : List Char → List Char
  | '\ufeff' :: rest => rest
  | chars => chars

/-- The table that a document describes. -/
def parse? (text : String) : Option (List (String × Value)) := do
  let chars := dropByteOrderMark text.toList
  let ss ← statements (chars.length + 1) [] chars
  let d ← ss.foldlM Draft.apply ⟨[], []⟩
  return Fields.toValues d.fields

end ChunkStream.Toml
