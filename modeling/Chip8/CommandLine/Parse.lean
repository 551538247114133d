import Chip8.CommandLine.Options

/-!
# Reading the command line

Arguments are read from left to right. What an argument says takes effect when
the next one that is not its value begins, or at the end of the line: a mistake
that only then comes to light gives way to an unknown argument, but not to a
request for help. After `--` every argument is taken as it stands.
-/

namespace Chip8.CommandLine

/-- Why reading ends before there are options. -/
inductive Stop where
  /-- The explanation is asked for. -/
  | help
  /-- The version is asked for. -/
  | version
  /-- The command line is refused. -/
  | usage (e : UsageError)
deriving DecidableEq, Repr

/-! ## The shape of an argument -/

/-- What an argument looks like. -/
inductive Shape where
  /-- Two dashes and nothing else. -/
  | escape
  /-- Two dashes and a name, and perhaps a value after an equals sign. -/
  | long (name : String) (value : Option String)
  /-- A dash and a letter, and perhaps more. -/
  | short (letter : Char)
  /-- Anything else. -/
  | plain
deriving DecidableEq, Repr

/-- The name before the first equals sign, and the value after it. -/
def splitValue (cs : List Char) : String × Option String :=
  match cs.dropWhile (· != '=') with
  | [] => (String.ofList cs, none)
  | _ :: value => (String.ofList (cs.takeWhile (· != '=')), some (String.ofList value))

/-- The shape of an argument. -/
def Shape.of (arg : String) : Shape :=
  match arg.toList with
  | ['-', '-'] => .escape
  | '-' :: '-' :: cs => .long (splitValue cs).1 (splitValue cs).2
  | '-' :: c :: _ => .short c
  | _ => .plain

/-! ## What has been read -/

/-- The parts of the options settled so far. -/
structure Settled where
  /-- The path of the ROM. -/
  rom : Option String
  /-- Instructions a second. -/
  cpuRate : Option Nat
  /-- The size of a pixel. -/
  scale : Option Scale
  /-- The seed of the random bytes. -/
  seed : Option (BitVec 64)

namespace Settled

/-- Nothing settled. -/
def none : Settled := ⟨.none, .none, .none, .none⟩

/-- Whether an option is settled. -/
def has (o : Settled) : Setting → Bool
  | .cpuRate => o.cpuRate.isSome
  | .scale => o.scale.isSome
  | .seed => o.seed.isSome

/-- Settles an option by the text of its value. -/
def assign (o : Settled) (s : Setting) (v : String) : Except ValueError Settled :=
  match s with
  | .cpuRate => do
    let rate ← (readUpTo 0xFFFFFFFF v).mapError .number
    return { o with cpuRate := some rate }
  | .scale => do
    let scale ← (Scale.parse v).mapError .scale
    return { o with scale := some scale }
  | .seed => do
    let seed ← (readUnsigned v).mapError .number
    return { o with seed := some (BitVec.ofNat 64 seed) }

/-- Settles an option, which may be given only once. -/
def accept (o : Settled) (s : Setting) (v : String) : Except UsageError Settled :=
  if o.has s then .error (.repeatedOption s) else (o.assign s v).mapError (.invalidValue s v)

end Settled

/-- An argument that has not taken effect yet. -/
inductive Pending where
  /-- Nothing. -/
  | none
  /-- An option whose value is to come. -/
  | awaiting (s : Setting)
  /-- An option and its value. -/
  | option (s : Setting) (v : String)
  /-- The path of the ROM. -/
  | rom (path : String)
deriving DecidableEq, Repr

/-- How far reading has come. -/
structure Progress where
  /-- What is settled. -/
  settled : Settled
  /-- What is about to be. -/
  pending : Pending
  /-- Whether arguments are taken as they stand. -/
  escaped : Bool

namespace Progress

/-- Nothing read. -/
def start : Progress := ⟨.none, .none, false⟩

/-- Lets what is pending take effect. -/
def settle (p : Progress) : Except UsageError Settled :=
  match p.pending with
  | .none => .ok p.settled
  | .awaiting s => .error (.missingValue s)
  | .option s v => p.settled.accept s v
  | .rom "" => .error .emptyRom
  | .rom path => .ok { p.settled with rom := some path }

/-- Whether the path of the ROM has been read. -/
def hasRom (p : Progress) : Bool :=
  match p.pending with
  | .rom _ => true
  | _ => p.settled.rom.isSome

/-- Reads an argument that stands for itself. -/
def readPlain (p : Progress) (arg : String) : Except UsageError Progress :=
  if p.hasRom then .error (.unknownArgument arg)
  else do
    let settled ← p.settle
    return { p with settled, pending := .rom arg }

/-- Ends reading at the request for help or the version. -/
def finish (p : Progress) (request : Stop) : Except Stop Progress := do
  let _ ← p.settle.mapError .usage
  throw request

/-- Reads an option by its name. -/
def readLong (p : Progress) (name : String) (value : Option String) : Except Stop Progress :=
  match name, value with
  | "help", none => p.finish .help
  | "version", none => p.finish .version
  | "help", some v => throw (.usage (.unexpectedValue "--help" v))
  | "version", some v => throw (.usage (.unexpectedValue "--version" v))
  | _, _ => Except.mapError Stop.usage <|
    match Setting.ofName? name with
    | none => .error (.unknownArgument ("--" ++ name))
    | some s => do
      let settled ← p.settle
      match value with
      | none => return { p with settled, pending := .awaiting s }
      | some v => return { p with settled := ← settled.accept s v, pending := .none }

/-- Reads an argument. -/
def read (p : Progress) (arg : String) : Except Stop Progress :=
  if p.escaped then (p.readPlain arg).mapError .usage
  else
    match Shape.of arg with
    | .escape => return { p with escaped := true }
    | .long name value => p.readLong name value
    | .short 'h' => p.finish .help
    | .short 'V' => p.finish .version
    | .short c => throw (.usage (.unknownArgument ("-" ++ c.toString)))
    | .plain =>
      match p.pending with
      | .awaiting s => return { p with pending := .option s arg }
      | _ => (p.readPlain arg).mapError .usage

end Progress

/-- The options that the settled parts and the defaults make up. -/
def Settled.toOptions (o : Settled) : Except UsageError Options :=
  match o.rom with
  | .none => .error .missingRom
  | some rom => .ok
    { rom
      cpuRate := o.cpuRate.getD defaultRate
      scale := o.scale.getD .x16
      seed := o.seed }

/-- Reads the arguments of the program. -/
def parse (args : List String) : Except Stop Options := do
  let p ← args.foldlM Progress.read .start
  (p.settle >>= Settled.toOptions).mapError .usage

end Chip8.CommandLine
