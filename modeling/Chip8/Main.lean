import Chip8.CommandLine.Launch
import Chip8.Host.Frame
import Chip8.Host.KeyMap

/-!
# The program

Runs a ROM in real time. Every picture drawn is written to standard output as a
pixmap, at most one after each batch of instructions. A line of standard input
that names a key of the host turns it from up to down or back.
-/

namespace Chip8.Main

open CommandLine

/-- What a system error says about a file. The numbers of the system may come negated. -/
def readErrorOf : IO.Error → ReadError
  | .noFileOrDirectory _ number reason
  | .permissionDenied _ number reason
  | .inappropriateType _ number reason
  | .invalidArgument _ number reason
  | .otherError number reason => .ofNumber reason (min number.toNat (-number).toNat)
  | e => .other e.toString 0

/-- The bytes of a file. -/
def fileBytes (path : String) : IO (Except ReadError (List Byte)) := do
  try
    let bytes ← IO.FS.readBinFile path
    return .ok (bytes.toList.map UInt8.toBitVec)
  catch e => return .error (readErrorOf e)

/-- A source of random bytes, with the seed if there is one. -/
def randomSource (seed : Option (BitVec 64)) : IO RandomSource := do
  match seed with
  | some s => return .ofSeed s
  | none =>
    let bytes ← IO.getRandomBytes 8
    return .ofSeed (bytes.toList.foldl (fun s b => s <<< 8 ||| b.toBitVec.setWidth 64) 0)

/-- Writes the records that a user should see. -/
def report (log : List Record) : IO Unit :=
  for r in log do
    match r.level with
    | .error | .warn => IO.eprintln r.text
    | .debug | .trace => pure ()

/-- The event that a line of input stands for. -/
def keyEvent? (e : Emulator) (line : String) : Option (Byte × Bool) :=
  (keyMap.find? fun k => k.1.name == line.trimAscii.copy).map fun k =>
    (k.2, !e.machine.keypad.isDown k.2)

/-- Writes a report and yields its exit code. -/
def finish (r : Report) : IO UInt32 := do
  IO.print r.output
  IO.eprint r.errors
  return r.code.toUInt32

/-- Runs the emulator until it fails. -/
partial def play (o : Options) (e : Emulator) (cpu timers : Pacer)
    (input : Task (Except IO.Error String)) : IO UInt32 := do
  let mut e := e
  let mut input := input
  if ← IO.hasFinished input then
    match input.get with
    | .ok "" | .error _ => pure ()
    | .ok line =>
      if let some (key, down) := keyEvent? e line then
        let r := e.setKey key down
        report r.log
        e := r.emulator
      input ← IO.asTask (do (← IO.getStdin).getLine)
  let now ← IO.monoNanosNow
  let due := cpu.poll now
  let ran := e.ticks due.ticks
  report ran.log
  if let .error f := ran.result.2 then return ← finish (.ofFailure f.message)
  let timersDue := timers.poll now
  let ticked := Nat.repeat Emulator.tickTimers timersDue.ticks ran.emulator
  let shown := ticked.takeDrawFlag
  if shown.result then
    let out ← IO.getStdout
    out.write (Frame.pixmap o.scale shown.emulator.machine.screen)
    out.flush
  IO.sleep 1
  play o shown.emulator due.pacer timersDue.pacer input

/-- Reads the command line and the ROM, and runs it. -/
def start (args : List String) : IO UInt32 := do
  match parse args with
  | .error s => finish (.ofStop s)
  | .ok o =>
    match launch o (← fileBytes o.rom) (← randomSource o.seed) with
    | .error r => finish r
    | .ok e =>
      let now ← IO.monoNanosNow
      let input ← IO.asTask (do (← IO.getStdin).getLine)
      play o e (.start o.cpuRate now) (.start timerRate now) input

end Chip8.Main

/-- Runs the program. -/
def main (args : List String) : IO UInt32 := Chip8.Main.start args
