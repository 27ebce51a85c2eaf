import ChunkStream.Decimal
import ChunkStream.Toml.Value

/-!
# TOML scalars

Numbers, booleans, dates and times.  A scalar is cut out of the text first and
then recognized as a whole, so that no rest can be left over.
-/

namespace ChunkStream.Toml.Scalar

def isDigit (c : Char) : Bool := '0' ≤ c && c ≤ '9'

def isHexDigit (c : Char) : Bool := isDigit c || 'a' ≤ c && c ≤ 'f' || 'A' ≤ c && c ≤ 'F'

def isOctalDigit (c : Char) : Bool := '0' ≤ c && c ≤ '7'

def isBinaryDigit (c : Char) : Bool := c == '0' || c == '1'

def digitValue (c : Char) : Nat :=
  if isDigit c then c.toNat - '0'.toNat
  else if 'a' ≤ c then c.toNat - 'a'.toNat + 10
  else c.toNat - 'A'.toNat + 10

/-- The number with the given digits. -/
def number (base : Nat) (digits : List Char) : Nat :=
  digits.foldl (fun n c => base * n + digitValue c) 0

/-- At least one digit, with single underscores between digits; without the
underscores. -/
def grouped (ok : Char → Bool) : List Char → Option (List Char)
  | [] => none
  | [c] => if ok c then some [c] else none
  | c :: '_' :: rest => if ok c then (c :: ·) <$> grouped ok rest else none
  | c :: rest => if ok c then (c :: ·) <$> grouped ok rest else none

/-- Splits a sign off; true for a minus. -/
def splitSign : List Char → Bool × List Char
  | '-' :: rest => (true, rest)
  | '+' :: rest => (false, rest)
  | rest => (false, rest)

/-- The digits of a decimal integer without sign, which has no leading zero. -/
def wholeDigits (chars : List Char) : Option (List Char) :=
  match grouped isDigit chars with
  | some ('0' :: _ :: _) => none
  | digits => digits

/-- Integers are 64-bit words. -/
def wordInteger (n : Int) : Option Value :=
  if -9223372036854775808 ≤ n ∧ n ≤ 9223372036854775807 then some (.integer n) else none

def integer? (chars : List Char) : Option Value :=
  match chars with
  | '0' :: 'x' :: rest => do wordInteger (number 16 (← grouped isHexDigit rest))
  | '0' :: 'o' :: rest => do wordInteger (number 8 (← grouped isOctalDigit rest))
  | '0' :: 'b' :: rest => do wordInteger (number 2 (← grouped isBinaryDigit rest))
  | chars => do
      let (negative, rest) := splitSign chars
      let n := number 10 (← wholeDigits rest)
      wordInteger (if negative then -n else n)

/-- The value of an exponent. -/
def exponent? (chars : List Char) : Option Int := do
  let (negative, rest) := splitSign chars
  let n := number 10 (← grouped isDigit rest)
  return if negative then -n else n

def isExponentMark (c : Char) : Bool := c == 'e' || c == 'E'

/-- A decimal has a fraction, an exponent or both, and must be finite. -/
def decimal? (chars : List Char) : Option Value := do
  let (negative, chars) := splitSign chars
  let (mantissa, tail) := chars.span (!isExponentMark ·)
  let (whole, fraction) := mantissa.span (· != '.')
  let whole ← wholeDigits whole
  let places ← match fraction with
    | [] => some []
    | _ :: fraction => grouped isDigit fraction
  let scale ← match tail with
    | [] => some 0
    | _ :: tail => exponent? tail
  if fraction.isEmpty && tail.isEmpty then none
  let value ← Decimal.toFloat? (number 10 (whole ++ places)) (scale - places.length)
  return .decimal (if negative then -value else value)

def special? (chars : List Char) : Option Value :=
  let (negative, rest) := splitSign chars
  match rest with
  | ['i', 'n', 'f'] => some (.decimal (if negative then -(1.0 / 0.0) else 1.0 / 0.0))
  | ['n', 'a', 'n'] => some (.nan negative)
  | _ => none

/-! ## Dates and times -/

/-- A field of exactly `n` digits within bounds, and what follows it. -/
def field (n lo hi : Nat) (chars : List Char) : Option (Nat × List Char) :=
  let digits := chars.take n
  let value := number 10 digits
  if digits.length = n ∧ digits.all isDigit ∧ lo ≤ value ∧ value ≤ hi then
    some (value, chars.drop n)
  else none

def mark (c : Char) : List Char → Option (List Char)
  | d :: rest => if c = d then some rest else none
  | [] => none

def isLeapYear (year : Nat) : Bool := year % 4 = 0 && (year % 100 ≠ 0 || year % 400 = 0)

def daysIn (year month : Nat) : Nat :=
  if month = 2 then (if isLeapYear year then 29 else 28)
  else if month ∈ [4, 6, 9, 11] then 30
  else 31

/-- Reads a date and answers with what follows it. -/
def date (chars : List Char) : Option (List Char) := do
  let (year, chars) ← field 4 0 9999 chars
  let chars ← mark '-' chars
  let (month, chars) ← field 2 1 12 chars
  let chars ← mark '-' chars
  let (_, chars) ← field 2 1 (daysIn year month) chars
  return chars

/-- Reads hours and minutes. -/
def clock (chars : List Char) : Option (List Char) := do
  let (_, chars) ← field 2 0 23 chars
  let chars ← mark ':' chars
  let (_, chars) ← field 2 0 59 chars
  return chars

/-- Reads a time of day, with seconds and perhaps a fraction. -/
def time (chars : List Char) : Option (List Char) := do
  let chars ← clock chars
  let chars ← mark ':' chars
  let (_, chars) ← field 2 0 60 chars
  match chars with
  | '.' :: c :: rest => if isDigit c then some (rest.dropWhile isDigit) else none
  | chars => some chars

/-- All that is left is an offset from universal time, or nothing. -/
def isOffset (chars : List Char) : Bool :=
  match chars with
  | [] => true
  | ['Z'] => true
  | ['z'] => true
  | c :: rest => (c == '+' || c == '-') && (clock rest).any (·.isEmpty)

/-- A whole time of day that follows a date. -/
def isTimeWithOffset (chars : List Char) : Bool := (time chars).any isOffset

def isDate (chars : List Char) : Bool := (date chars).any (·.isEmpty)

def moment? (chars : List Char) : Option Value :=
  let recognized : Bool :=
    match date chars with
    | some [] => true
    | some (c :: rest) => (c == 'T' || c == 't') && isTimeWithOffset rest
    | none => (time chars).any (·.isEmpty)
  if recognized then some .moment else none

/-- Recognizes a whole scalar. -/
def recognize (chars : List Char) : Option Value :=
  match chars with
  | ['t', 'r', 'u', 'e'] => some (.boolean true)
  | ['f', 'a', 'l', 's', 'e'] => some (.boolean false)
  | chars => special? chars <|> moment? chars <|> integer? chars <|> decimal? chars

end ChunkStream.Toml.Scalar
