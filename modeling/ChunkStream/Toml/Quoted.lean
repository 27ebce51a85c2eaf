import ChunkStream.Toml.Scalar

/-!
# TOML strings

Four ways to write a text: between double quotes with escapes, between single
quotes as it stands, and each of them over several lines between tripled
quotes.  Readers start after the opening quotes and answer with the text and
what follows the closing ones.
-/

namespace ChunkStream.Toml.Quoted

/-- Characters that stand for themselves in a text or a comment: all but the
control characters, of which only the tab does. -/
def isPlain (c : Char) : Bool := c == '\t' || ' ' ≤ c && c ≠ '\x7f'

def isBlank (c : Char) : Bool := c == ' ' || c == '\t'

/-- Characters after a backslash that stand for one character. -/
def simpleEscape? : Char → Option Char
  | 'b' => some '\x08'
  | 't' => some '\t'
  | 'n' => some '\n'
  | 'f' => some '\x0c'
  | 'r' => some '\r'
  | '"' => some '"'
  | '\\' => some '\\'
  | _ => none

/-- The character with the code in the first `n` characters. -/
def codePoint (n : Nat) (chars : List Char) : Option (Char × List Char) :=
  let digits := chars.take n
  let code := Scalar.number 16 digits
  if digits.length = n ∧ digits.all Scalar.isHexDigit ∧ code.isValidChar then
    some (Char.ofNat code, chars.drop n)
  else none

/-- Reads what follows a backslash. -/
def escape : List Char → Option (Char × List Char)
  | 'u' :: rest => codePoint 4 rest
  | 'U' :: rest => codePoint 8 rest
  | c :: rest => (simpleEscape? c).map (·, rest)
  | [] => none

/-- Reads a text up to a double quote; `done` has the latest character first. -/
def basic : Nat → List Char → List Char → Option (String × List Char)
  | 0, _, _ => none
  | _, _, [] => none
  | _ + 1, done, '"' :: rest => some (String.ofList done.reverse, rest)
  | fuel + 1, done, '\\' :: rest => do
      let (c, rest) ← escape rest
      basic fuel (c :: done) rest
  | fuel + 1, done, c :: rest => if isPlain c then basic fuel (c :: done) rest else none

/-- Reads a text up to a single quote. -/
def literal (chars : List Char) : Option (String × List Char) :=
  match chars.span fun c => isPlain c && c ≠ '\'' with
  | (text, '\'' :: rest) => some (String.ofList text, rest)
  | _ => none

/-- Drops the line break a text over several lines may begin with. -/
def dropLineBreak : List Char → List Char
  | '\n' :: rest => rest
  | '\r' :: '\n' :: rest => rest
  | rest => rest

/-- Drops blanks and line breaks. -/
def dropSpace : List Char → List Char
  | ' ' :: rest => dropSpace rest
  | '\t' :: rest => dropSpace rest
  | '\n' :: rest => dropSpace rest
  | '\r' :: '\n' :: rest => dropSpace rest
  | rest => rest

/-- What follows a backslash that ends a line. -/
def lineEnd? (chars : List Char) : Option (List Char) :=
  match chars.dropWhile isBlank with
  | '\n' :: rest => some (dropSpace rest)
  | '\r' :: '\n' :: rest => some (dropSpace rest)
  | _ => none

/-- Reads a text up to three quotes.  Up to two quotes may stand before the
closing ones, and a line break is kept as a single line feed.  Escapes are read
only if `escapes` says so. -/
def multiline (quote : Char) (escapes : Bool) :
    Nat → List Char → List Char → Option (String × List Char)
  | 0, _, _ => none
  | _, _, [] => none
  | fuel + 1, done, c :: rest =>
      if c = quote then
        let (more, after) := rest.span (· == quote)
        let n := more.length + 1
        if n < 3 then multiline quote escapes fuel (List.replicate n quote ++ done) after
        else if n ≤ 5 then
          some (String.ofList (List.replicate (n - 3) quote ++ done).reverse, after)
        else none
      else if escapes && c == '\\' then
        match lineEnd? rest with
        | some rest => multiline quote escapes fuel done rest
        | none => do
            let (c, rest) ← escape rest
            multiline quote escapes fuel (c :: done) rest
      else if c = '\n' then multiline quote escapes fuel ('\n' :: done) rest
      else if c = '\r' then
        match rest with
        | '\n' :: rest => multiline quote escapes fuel ('\n' :: done) rest
        | _ => none
      else if isPlain c then multiline quote escapes fuel (c :: done) rest
      else none

/-- Reads a text of any kind, from its opening quotes on. -/
def text (chars : List Char) : Option (String × List Char) :=
  let fuel := chars.length
  match chars with
  | '"' :: '"' :: '"' :: rest => multiline '"' true fuel [] (dropLineBreak rest)
  | '"' :: rest => basic fuel [] rest
  | '\'' :: '\'' :: '\'' :: rest => multiline '\'' false fuel [] (dropLineBreak rest)
  | '\'' :: rest => literal rest
  | _ => none

end ChunkStream.Toml.Quoted
