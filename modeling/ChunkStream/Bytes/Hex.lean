/-!
# Bytes in hexadecimal

Two digits a byte, the high one first; letters are small when written and of
either size when read.
-/

namespace ChunkStream.Bytes

def hexDigit (n : Nat) : Char := Char.ofNat (if n < 10 then '0'.toNat + n else 'a'.toNat + (n - 10))

/-- The value of a hexadecimal digit. -/
def hexValue (c : Char) : Nat :=
  if c.isDigit then c.toNat - '0'.toNat else c.toLower.toNat - 'a'.toNat + 10

def toHex (bytes : List UInt8) : String :=
  String.ofList (bytes.flatMap fun b => [hexDigit (b.toNat / 16), hexDigit (b.toNat % 16)])

/-- The bytes of a list of digits; a single digit at the end is dropped. -/
def ofHexDigits : List Char → List UInt8
  | high :: low :: rest => UInt8.ofNat (16 * hexValue high + hexValue low) :: ofHexDigits rest
  | _ => []

def ofHex (text : String) : List UInt8 := ofHexDigits text.toList

end ChunkStream.Bytes
