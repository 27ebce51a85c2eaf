import ChunkStream.Config

/-!
# The command line

Options have a long name and take a value or stand alone.  A value is the next
argument or follows an equals sign.  Arguments are read from the left, and the
first that is wrong decides what is reported; an option may be given once.
-/

namespace ChunkStream

structure Arguments where
  config : String := "strata.toml"
  ticks : Option Nat := none
  workers : Option Nat := none
  budget : Option Nat := none
  seed : Option Int32 := none
  flat : Bool := false
  watch : Bool := false
  verbose : Bool := false
deriving DecidableEq, Repr, Inhabited

namespace Arguments

/-- Overrides what the configuration says with what the arguments say. -/
def apply (a : Arguments) (c : Config) : Config :=
  { c with
    ticks := a.ticks.getD c.ticks
    provider :=
      { c.provider with
        workers := a.workers.getD c.provider.workers
        cacheBudget := a.budget <|> c.provider.cacheBudget }
    terrain := { c.terrain with seed := a.seed.getD c.terrain.seed } }

end Arguments

/-- Why the arguments do not lead to a run. -/
inductive Refusal
  | unknownArgument (argument : String)
  | invalidValue (option : String)
  | valueValidation (option value : String)
  | argumentConflict (option : String)
  | tooManyValues (option : String)
  | displayHelp
  | displayVersion
deriving DecidableEq, Repr

/-- Options that take a value. -/
inductive ValueOption
  | config
  | ticks
  | workers
  | budget
  | seed
deriving DecidableEq, Repr

/-- Options that stand alone. -/
inductive Switch
  | flat
  | watch
  | verbose
  | help
  | version
deriving DecidableEq, Repr

namespace CommandLine

def ValueOption.name : ValueOption → String
  | .config => "config"
  | .ticks => "ticks"
  | .workers => "workers"
  | .budget => "budget"
  | .seed => "seed"

def Switch.name : Switch → String
  | .flat => "flat"
  | .watch => "watch"
  | .verbose => "verbose"
  | .help => "help"
  | .version => "version"

def valueOption? (name : String) : Option ValueOption :=
  [ValueOption.config, .ticks, .workers, .budget, .seed].find? fun o => ValueOption.name o == name

def switch? (name : String) : Option Switch :=
  [Switch.flat, .watch, .verbose, .help, .version].find? fun s => Switch.name s == name

/-- Switches that have a short name. -/
def shortSwitch? : Char → Option Switch
  | 'v' => some .verbose
  | 'h' => some .help
  | 'V' => some .version
  | _ => none

/-! ## Values -/

/-- A natural number in decimal digits, perhaps after a plus sign. -/
def nat? (text : String) : Option Nat :=
  let digits := match text.toList with
    | '+' :: rest => rest
    | chars => chars
  if digits.isEmpty || !digits.all Char.isDigit then none
  else some (digits.foldl (fun n c => 10 * n + (c.toNat - '0'.toNat)) 0)

/-- A natural number below the limit of sizes. -/
def size? (text : String) : Option Nat := (nat? text).filter (· < Size.limit)

/-- A word, perhaps after a sign. -/
def word? (text : String) : Option Int32 := do
  let n : Int ← match text.toList with
    | '-' :: '+' :: _ => none
    | '-' :: rest => (nat? (String.ofList rest)).map fun n => -(n : Int)
    | _ => (nat? text).map Int.ofNat
  if Word.Fits n then return Int32.ofInt n else none

/-- What was read so far, and the options that were given. -/
structure Progress where
  arguments : Arguments := {}
  given : List String := []

/-- An option may be given once. -/
def claim (name : String) (p : Progress) : Except Refusal Progress :=
  if name ∈ p.given then .error (.argumentConflict name)
  else .ok { p with given := name :: p.given }

def orRefuse {α : Type} (option text : String) (value : Option α) : Except Refusal α :=
  match value with
  | none => .error (.valueValidation option text)
  | some v => .ok v

/-- Takes the value of an option. -/
def setOption (o : ValueOption) (text : String) (p : Progress) : Except Refusal Progress := do
  let name := ValueOption.name o
  let p ← claim name p
  let a := p.arguments
  let a ← match o with
    | .config =>
        if text.isEmpty then throw (.invalidValue name) else pure { a with config := text }
    | .ticks => do pure { a with ticks := some (← orRefuse name text (size? text)) }
    | .workers => do pure { a with workers := some (← orRefuse name text (size? text)) }
    | .budget => do pure { a with budget := some (← orRefuse name text (size? text)) }
    | .seed => do pure { a with seed := some (← orRefuse name text (word? text)) }
  return { p with arguments := a }

/-- Takes a switch. -/
def setSwitch (s : Switch) (p : Progress) : Except Refusal Progress := do
  match s with
  | .help => throw .displayHelp
  | .version => throw .displayVersion
  | .flat =>
      let p ← claim (Switch.name s) p
      return { p with arguments := { p.arguments with flat := true } }
  | .watch =>
      let p ← claim (Switch.name s) p
      return { p with arguments := { p.arguments with watch := true } }
  | .verbose =>
      let p ← claim (Switch.name s) p
      return { p with arguments := { p.arguments with verbose := true } }

/-- Takes the switches of one argument with short names. -/
def setShort (chars : List Char) (p : Progress) : Except Refusal Progress :=
  chars.foldlM
    (fun p c =>
      match shortSwitch? c with
      | none => throw (.unknownArgument s!"-{c}")
      | some s => setSwitch s p)
    p

/-! ## Arguments -/

/-- The kinds of arguments, by their first characters. -/
inductive Shape
  | long (name : String) (value : Option String)
  | short (chars : List Char)
  | terminator
  | bare

/-- A lone dash is bare, and two dashes alone end the options. -/
def shape (arg : String) : Shape :=
  match arg.toList with
  | ['-', '-'] => .terminator
  | '-' :: '-' :: rest =>
      match rest.span (· != '=') with
      | (name, []) => .long (String.ofList name) none
      | (name, _ :: value) => .long (String.ofList name) (some (String.ofList value))
  | '-' :: c :: rest => .short (c :: rest)
  | _ => .bare

/-- What is wrong with an argument that stands where the value of an option is
missing.  A known option there means that the value was left out. -/
def refuseAsValue (name arg : String) : Refusal :=
  match shape arg with
  | .long other value =>
      if (valueOption? other).isSome then .invalidValue name
      else if (switch? other).isSome then
        if value.isSome then .tooManyValues other else .invalidValue name
      else .unknownArgument arg
  | .short (c :: _) => if (shortSwitch? c).isSome then .invalidValue name else .unknownArgument arg
  | _ => .unknownArgument arg

/-- Reads the arguments in turn. -/
def readFrom : Progress → List String → Except Refusal Progress
  | p, [] => .ok p
  | p, arg :: rest =>
      match shape arg with
      | .bare => .error (.unknownArgument arg)
      | .terminator =>
          match rest with
          | [] => .ok p
          | next :: _ => .error (.unknownArgument next)
      | .short chars => do readFrom (← setShort chars p) rest
      | .long name attached =>
          match switch? name, valueOption? name, attached, rest with
          | some s, _, none, rest => do readFrom (← setSwitch s p) rest
          | some _, _, some _, _ => .error (.tooManyValues name)
          | none, some o, some value, rest => do readFrom (← setOption o value p) rest
          | none, some _, none, [] => .error (.invalidValue name)
          | none, some o, none, value :: rest =>
              match shape value with
              | .bare => do readFrom (← setOption o value p) rest
              | _ => .error (refuseAsValue name value)
          | none, none, _, _ => .error (.unknownArgument arg)

/-- The arguments of a run. -/
def parse (args : List String) : Except Refusal Arguments := do
  return (← readFrom {} args).arguments

end CommandLine

end ChunkStream
