import Chip8.Emulator.Basic

/-!
# Commands

The operations of the emulator as data, so that a run is a list of commands.
`Emulator.run` performs them in turn and collects their answers and their log.

* `run_append`: a run of two lists is the run of the second after the first.
-/

namespace Chip8

/-- An operation of the emulator. -/
inductive Command where
  /-- Loads a ROM. -/
  | load (rom : List Byte)
  /-- Runs a cycle. -/
  | tick
  /-- Counts the timers down. -/
  | tickTimers
  /-- Records a key event. -/
  | setKey (key : Byte) (down : Bool)
  /-- Resets the machine. -/
  | reset
  /-- Takes the draw flag. -/
  | takeDrawFlag
  /-- Looks at the next instruction. -/
  | peek
  /-- Looks at a pixel. -/
  | pixel (x y : Nat)
deriving DecidableEq

/-- The answer to a command. -/
inductive Answer where
  /-- The command is carried out. -/
  | done
  /-- The command failed. -/
  | failed (f : Failure)
  /-- A yes or no. -/
  | flag (b : Bool)
  /-- An instruction. -/
  | instruction (i : Instruction)
deriving DecidableEq

namespace Answer

/-- The answer that a result without a value stands for. -/
def ofResult : Except Failure Unit → Answer
  | .ok () => .done
  | .error f => .failed f

/-- The answer that a decoded instruction or a fault stands for. -/
def ofInstruction : Except Fault Instruction → Answer
  | .ok i => .instruction i
  | .error f => .failed (.fault f)

end Answer

namespace Emulator

/-- Replaces the result of an operation by a function of it. -/
def Response.map {α β : Type} (f : α → β) (r : Response α) : Response β :=
  ⟨f r.result, r.emulator, r.log⟩

/-- Performs a command. -/
def perform (e : Emulator) : Command → Response Answer
  | .load rom => (e.load rom).map Answer.ofResult
  | .tick => e.tick.map Answer.ofResult
  | .tickTimers => ⟨.done, e.tickTimers, []⟩
  | .setKey key down => (e.setKey key down).map Answer.ofResult
  | .reset => e.reset.map fun _ => .done
  | .takeDrawFlag => e.takeDrawFlag.map .flag
  | .peek => ⟨.ofInstruction e.peek, e, []⟩
  | .pixel x y => ⟨.flag (e.machine.screen.get x y), e, []⟩

/-- Performs commands in turn. The result holds their answers. -/
def run (e : Emulator) : List Command → Response (List Answer)
  | [] => ⟨[], e, []⟩
  | c :: cs =>
    let r := e.perform c
    let rest := r.emulator.run cs
    ⟨r.result :: rest.result, rest.emulator, r.log ++ rest.log⟩

/-- The emulators that commands lead to from power-on. -/
def Reachable (e : Emulator) : Prop :=
  ∃ random cs, ((fresh random).run cs).emulator = e

theorem run_append (e : Emulator) (cs ds : List Command) :
    e.run (cs ++ ds) =
      let r := e.run cs
      let rest := r.emulator.run ds
      ⟨r.result ++ rest.result, rest.emulator, r.log ++ rest.log⟩ := by
  induction cs generalizing e with
  | nil => simp [run]
  | cons c cs ih => simp [run, ih]

end Emulator

end Chip8
