import Chip8.CommandLine.Parse
import Chip8.Emulator.Basic

/-!
# Launching

From the command line to an emulator that runs, or to a report on why it does not:
the exit code and what is written to the two output streams.
-/

namespace Chip8.CommandLine

/-- How the program ends. -/
structure Report where
  /-- The exit code. -/
  code : Nat
  /-- What it writes to standard output. -/
  output : String
  /-- What it writes to standard error. -/
  errors : String
deriving DecidableEq, Repr

/-- Why a file cannot be read. -/
inductive ReadError where
  /-- There is no such file. -/
  | notFound
  /-- The user may not read it. -/
  | denied
  /-- A part of its path is a file. -/
  | notDirectory
  /-- It is a directory. -/
  | isDirectory
  /-- A part of its path is too long for a name. -/
  | nameTooLong
  /-- Anything else: a reason in words, and the number that the system has for it. -/
  | other (reason : String) (number : Nat)
deriving DecidableEq, Repr

namespace ReadError

/-- The reason in words. -/
def reason : ReadError → String
  | .notFound => "No such file or directory"
  | .denied => "Permission denied"
  | .notDirectory => "Not a directory"
  | .isDirectory => "Is a directory"
  | .nameTooLong => "File name too long"
  | .other reason _ => reason

/-- The number that the system has for the reason. -/
def number : ReadError → Nat
  | .notFound => 2
  | .denied => 13
  | .notDirectory => 20
  | .isDirectory => 21
  | .nameTooLong => 36
  | .other _ number => number

/-- The cause that the system has a number for, `other` with a reason if the number
is none of the known ones. -/
def ofNumber (reason : String) : Nat → ReadError
  | 2 => .notFound
  | 13 => .denied
  | 20 => .notDirectory
  | 21 => .isDirectory
  | 36 => .nameTooLong
  | number => .other reason number

theorem number_ofNumber (reason : String) (n : Nat) : (ofNumber reason n).number = n := by
  unfold ofNumber
  split <;> rfl

end ReadError

namespace Report

/-- The report on a command line without options. -/
def ofStop : Stop → Report
  | .help => ⟨0, helpText, ""⟩
  | .version => ⟨0, versionText, ""⟩
  | .usage e => ⟨2, "", e.message⟩

/-- The report on a failure while running. -/
def ofFailure (text : String) : Report := ⟨1, "", "Error: " ++ text ++ "\n"⟩

/-- The report on a ROM that cannot be read. -/
def ofReadError (path : String) (e : ReadError) : Report :=
  ofFailure ("reading ROM " ++ path ++ "\n\nCaused by:\n    " ++ e.reason ++ " (os error "
    ++ Numeral.decimal e.number ++ ")")

end Report

/-- The emulator that runs a ROM, given what reading its file yielded. -/
def launch (o : Options) (rom : Except ReadError (List Byte)) (random : RandomSource) :
    Except Report Emulator := do
  let rom ← rom.mapError (Report.ofReadError o.rom)
  let loaded := (Emulator.fresh random).load rom
  loaded.result.mapError fun f => Report.ofFailure f.message
  return loaded.emulator

end Chip8.CommandLine
