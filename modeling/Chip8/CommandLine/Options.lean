import Chip8.CommandLine.Number
import Chip8.CommandLine.Plain
import Chip8.Host.Scale
import Chip8.Pacing

/-!
# Options

What the command line settles: the ROM to run, the rate of the processor, the
scale of the picture and the seed of the random bytes. The module also holds the
texts that explain it, and the ways in which a command line can be wrong.
-/

namespace Chip8.CommandLine

/-- What a run of the program is to be. -/
structure Options where
  /-- The path of the ROM. -/
  rom : String
  /-- Instructions a second. -/
  cpuRate : Nat
  /-- The size of a pixel. -/
  scale : Scale
  /-- The seed of the random bytes, if they are to be the same every time. -/
  seed : Option (BitVec 64)
deriving DecidableEq, Repr

/-- The options that take a value. -/
inductive Setting where
  /-- The rate of the processor. -/
  | cpuRate
  /-- The size of a pixel. -/
  | scale
  /-- The seed of the random bytes. -/
  | seed
deriving DecidableEq, Repr

namespace Setting

/-- The name of an option, without the dashes. -/
def name : Setting → String
  | .cpuRate => "cpu-hz"
  | .scale => "scale"
  | .seed => "seed"

/-- The option of a name. -/
def ofName? : String → Option Setting
  | "cpu-hz" => some .cpuRate
  | "scale" => some .scale
  | "seed" => some .seed
  | _ => none

/-- The option and its value, as messages show it. -/
def usage : Setting → String
  | .cpuRate => "--cpu-hz <CPU_HZ>"
  | .scale => "--scale <SCALE>"
  | .seed => "--seed <SEED>"

theorem ofName?_name (s : Setting) : ofName? s.name = some s := by
  cases s <;> rfl

end Setting

/-- Why the value of an option is refused. -/
inductive ValueError where
  /-- It is no number, or not one of the range. -/
  | number (e : NumberError)
  /-- It is no scale. -/
  | scale (u : UnsupportedScale)
deriving DecidableEq, Repr

/-- The text shown for a value that is refused. -/
def ValueError.message : ValueError → String
  | .number e => e.message
  | .scale u => u.message

/-- Why a command line is refused. -/
inductive UsageError where
  /-- No ROM is given. -/
  | missingRom
  /-- The path of the ROM is empty. -/
  | emptyRom
  /-- An option has no value. -/
  | missingValue (s : Setting)
  /-- An option has a value that it cannot have. -/
  | invalidValue (s : Setting) (value : String) (e : ValueError)
  /-- An option is given twice. -/
  | repeatedOption (s : Setting)
  /-- An option that takes no value has one. -/
  | unexpectedValue (option value : String)
  /-- There is no such argument. -/
  | unknownArgument (arg : String)
deriving DecidableEq, Repr

/-- The end of the text shown for a command line that is refused, after some text in
the same style. -/
def advice (before : String) : List String :=
  [before ++ "\n\nFor more information, try '", "--help", "'.\n"]

/-- As `advice`, with the form of a command line before it. -/
def usageAdvice (before : String) : List String :=
  advice (before ++ "\n\nUsage: chip8-vm [OPTIONS] <ROM>")

/-- The text shown for a command line that is refused, in stretches that an escape
sequence in an argument does not leave. -/
def UsageError.stretches : UsageError → List String
  | .missingRom =>
    usageAdvice "error: the following required arguments were not provided:\n  <ROM>"
  | .emptyRom => advice "error: a value is required for '<ROM>' but none was supplied"
  | .missingValue s =>
    advice ("error: a value is required for '" ++ s.usage ++ "' but none was supplied")
  | .invalidValue s v e =>
    "error: invalid value '" :: v :: advice ("' for '" ++ s.usage ++ "': " ++ e.message)
  | .repeatedOption s =>
    usageAdvice ("error: the argument '" ++ s.usage ++ "' cannot be used multiple times")
  | .unexpectedValue option v =>
    "error: unexpected value '" :: v
      :: usageAdvice ("' for '" ++ option ++ "' found; no more were expected")
  | .unknownArgument arg => "error: unexpected argument '" :: arg :: usageAdvice "' found"

/-- The text shown for a command line that is refused, without what would steer a
terminal. -/
def UsageError.message (e : UsageError) : String := String.join (e.stretches.map Plain.strip)

/-- The text that explains the command line. -/
def helpText : String := String.intercalate "\n" [
  "CHIP-8 virtual machine",
  "",
  "Usage: chip8-vm [OPTIONS] <ROM>",
  "",
  "Arguments:",
  "  <ROM>  Path to the ROM file to run",
  "",
  "Options:",
  "      --cpu-hz <CPU_HZ>  Instructions per second [default: 500]",
  "      --scale <SCALE>    Window scale (1, 2, 4, 8, 16 or 32) [default: 16]",
  "      --seed <SEED>      Seed for the RND instruction",
  "  -h, --help             Print help",
  "  -V, --version          Print version",
  ""]

/-- The text that names the version. -/
def versionText : String := "chip8-vm 0.1.0\n"

end Chip8.CommandLine
