import ChunkStream.Bytes.LittleEndian

/-!
# LZ4 blocks

A block is a list of sequences and a final run of literals.  A sequence is a
run of literals and a match, which repeats bytes that were written `offset`
bytes earlier; a match may overlap itself.  `parse` and `print` relate a block
to its bytes, `expand` and `compress` to the text it stands for.

Compression looks at each place for the latest place with the same mark, and
takes the match that it finds there.  A match is compared byte by byte, so that
marks decide about size only.  The rules for the end of a block are kept: the
last bytes are literals, and no match starts close to them.
-/

namespace ChunkStream.Lz4

inductive DecompressError
  | missingByte
  | literalsBeyondInput
  | offsetOutOfRange
  | outputTooLong
deriving DecidableEq, Repr

def DecompressError.message : DecompressError → String
  | .missingByte => "expected another byte, found none"
  | .literalsBeyondInput => "literal is out of bounds of the input"
  | .offsetOutOfRange => "the offset to copy is not contained in the decompressed buffer"
  | .outputTooLong => "provided output is too small for the decompressed data"

structure Sequence where
  literals : List UInt8
  offset : Nat
  length : Nat
deriving DecidableEq, Repr

structure Block where
  sequences : List Sequence
  final : List UInt8
deriving DecidableEq, Repr

/-! ## Bytes of a block -/

/-- The shortest match; a length field counts from here. -/
def shortestMatch : Nat := 4

/-- The bytes that continue a length of at least fifteen. -/
def printLength (n : Nat) : List UInt8 :=
  List.replicate (n / 255) 255 ++ [UInt8.ofNat (n % 255)]

/-- A length field: four bits, continued by further bytes when they are all
set. -/
def nibble (n : Nat) : Nat := min n 15

def continuation (n : Nat) : List UInt8 := if n < 15 then [] else printLength (n - 15)

def token (literals matched : Nat) : UInt8 := UInt8.ofNat (16 * nibble literals + nibble matched)

def Sequence.print (s : Sequence) : List UInt8 :=
  token s.literals.length (s.length - shortestMatch)
    :: (continuation s.literals.length ++ s.literals ++ Bytes.encodeNat 2 s.offset
      ++ continuation (s.length - shortestMatch))

def Block.print (b : Block) : List UInt8 :=
  b.sequences.flatMap Sequence.print
    ++ token b.final.length 0 :: (continuation b.final.length ++ b.final)

/-- Adds up continuation bytes, through the first that is not full. -/
def parseLength : Nat → List UInt8 → Except DecompressError (Nat × List UInt8)
  | _, [] => .error .missingByte
  | n, b :: bytes => if b = 255 then parseLength (n + 255) bytes else .ok (n + b.toNat, bytes)

def parseField (bits : Nat) (bytes : List UInt8) : Except DecompressError (Nat × List UInt8) :=
  if bits < 15 then .ok (bits, bytes) else parseLength 15 bytes

/-- Reads sequences, latest first, and the final literals; `fuel` bounds the
number of tokens. -/
def parseFrom : Nat → List Sequence → List UInt8 → Except DecompressError Block
  | 0, _, _ => .error .missingByte
  | _, _, [] => .error .missingByte
  | fuel + 1, done, t :: bytes => do
      let (n, bytes) ← parseField (t.toNat / 16) bytes
      match Bytes.splitExactly n bytes with
      | none => throw .literalsBeyondInput
      | some (literals, []) => return ⟨done.reverse, literals⟩
      | some (literals, bytes) =>
          match Bytes.decodeNat 2 bytes with
          | none => throw .missingByte
          | some (offset, bytes) =>
              let (m, bytes) ← parseField (t.toNat % 16) bytes
              parseFrom fuel (⟨literals, offset, m + shortestMatch⟩ :: done) bytes

/-- The block written as the given bytes.  It ends with the literals that end
the bytes. -/
def Block.parse (bytes : List UInt8) : Except DecompressError Block :=
  parseFrom bytes.length [] bytes

/-! ## Text of a block -/

/-- Repeats `n` bytes from `offset` bytes before the end, one at a time. -/
def copyMatch (offset : Nat) : Nat → Array UInt8 → Array UInt8
  | 0, text => text
  | n + 1, text => copyMatch offset n (text.push (text.getD (text.size - offset) 0))

/-- The text after one more sequence, at most `limit` bytes long. -/
def Sequence.expand (limit : Nat) (text : Array UInt8) (s : Sequence) :
    Except DecompressError (Array UInt8) :=
  if limit < text.size + s.literals.length then .error .outputTooLong
  else
    let text := text.appendList s.literals
    if s.offset = 0 ∨ text.size < s.offset then .error .offsetOutOfRange
    else if limit < text.size + s.length then .error .outputTooLong
    else .ok (copyMatch s.offset s.length text)

def Block.expand (limit : Nat) (b : Block) : Except DecompressError (Array UInt8) := do
  let text ← b.sequences.foldlM (Sequence.expand limit) #[]
  if limit < text.size + b.final.length then throw .outputTooLong
  return text.appendList b.final

/-! ## Compression -/

/-- Where groups of bytes were seen: for each of the possible marks one more than
the latest place, or zero. -/
abbrev Seen := Array Nat

/-- Number of marks. -/
def marks : Nat := 4096

/-- A number below `marks` for the four bytes at a place. -/
def markAt (text : Array UInt8) (place : Nat) : Nat :=
  let byte (i : Nat) : UInt32 := (text.getD (place + i) 0).toUInt32
  let group := byte 0 ||| byte 1 <<< 8 ||| byte 2 <<< 16 ||| byte 3 <<< 24
  ((group * 2654435761) >>> 20).toNat

/-- Matches reach back at most this far. -/
def farthest : Nat := 65535

/-- The last bytes of a text are never part of a match. -/
def tailLength : Nat := 5

/-- No match starts closer to the end than this. -/
def lastStart : Nat := 12

/-- Where the text from `j` on, `n` bytes at most, stops repeating the text from
`i` on. -/
def matchEnd (text : Array UInt8) : Nat → Nat → Nat → Nat
  | 0, _, j => j
  | n + 1, i, j => if text[i]? = text[j]? then matchEnd text n (i + 1) (j + 1) else j

/-- The match found at a place with a mark, as an offset and a length. -/
def findMatch (text : Array UInt8) (seen : Seen) (mark place : Nat) : Option (Nat × Nat) :=
  match seen.getD mark 0 with
  | 0 => none
  | earlier + 1 =>
      let length := matchEnd text (text.size - tailLength - place) earlier place - place
      if earlier < place ∧ place ≤ earlier + farthest ∧ shortestMatch ≤ length then
        some (place - earlier, length)
      else none

/-- The bytes from one place to another. -/
def slice (text : Array UInt8) (start stop : Nat) : List UInt8 := (text.extract start stop).toList

/-- Splits the text from `start` on into sequences after those in `done`, which
has the latest first.  The bytes from `start` to `place` are literals so far.
Any assignment of marks to places will do. -/
def compressFrom (mark : Nat → Nat) (text : Array UInt8) :
    Nat → Seen → List Sequence → Nat → Nat → Block
  | fuel + 1, seen, done, start, place =>
      if place + lastStart ≤ text.size then
        let found := findMatch text seen (mark place) place
        let seen := seen.setIfInBounds (mark place) (place + 1)
        match found with
        | none => compressFrom mark text fuel seen done start (place + 1)
        | some (offset, length) =>
            compressFrom mark text fuel seen (⟨slice text start place, offset, length⟩ :: done)
              (place + length) (place + length)
      else ⟨done.reverse, slice text start text.size⟩
  | 0, _, done, start, _ => ⟨done.reverse, slice text start text.size⟩

/-- A block for a text. -/
def compress (text : Array UInt8) : Block :=
  compressFrom (markAt text) text text.size (Array.replicate marks 0) [] 0 0

end ChunkStream.Lz4
