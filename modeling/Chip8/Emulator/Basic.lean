import Chip8.Instruction.Table
import Chip8.Log
import Chip8.Machine.Execute

/-!
# The emulator

A machine with a run state and a draw flag. A tick runs one instruction; a fault
puts the program counter back, halts the emulator and is reported, and only a
reset leads out again. Every operation yields a result, the emulator after it and
the records it logged.

* `tick_of_not_running`: outside the running state a tick changes nothing.
-/

namespace Chip8

/-- What the emulator does with a tick. -/
inductive RunState where
  /-- Nothing: no program is loaded. -/
  | idle
  /-- The next instruction. -/
  | running
  /-- Nothing: the program waits for a key press, to be put into a register. -/
  | awaitingKey (register : Byte)
  /-- It refuses the tick: an instruction has failed. -/
  | halted
deriving DecidableEq, Repr

/-- A machine under control of the outside world. -/
@[ext] structure Emulator where
  /-- The machine. -/
  machine : Machine
  /-- The run state. -/
  state : RunState
  /-- Whether the picture was drawn since it was last asked for. -/
  drawFlag : Bool
deriving DecidableEq

namespace Emulator

/-- The outcome of an operation. -/
structure Response (α : Type) where
  /-- The result. -/
  result : α
  /-- The emulator after the operation. -/
  emulator : Emulator
  /-- The records logged, in order. -/
  log : List Record

/-- The emulator at power-on, with a source of random bytes. -/
def fresh (random : RandomSource) : Emulator := ⟨.fresh random, .idle, false⟩

/-- The emulator at power-on, with the random bytes of a seed. -/
def ofSeed (seed : BitVec 64) : Emulator := fresh (.ofSeed seed)

/-- The emulators agree on all but their random sources. -/
def Alike (e e' : Emulator) : Prop :=
  e.machine.Alike e'.machine ∧ e.state = e'.state ∧ e.drawFlag = e'.drawFlag

instance (e e' : Emulator) : Decidable (e.Alike e') := by
  unfold Alike
  infer_instance

/-- The program counter. -/
def pc (e : Emulator) : Word := e.machine.registers.pc

/-! ## Loading and running a program -/

/-- Loads a ROM into program memory. An idle emulator starts to run. -/
def load (rom : List Byte) (e : Emulator) : Response (Except Failure Unit) :=
  match e.machine.onMemory (Memory.loadRom rom) with
  | .ok () m =>
    ⟨.ok (), ⟨m, if e.state = .idle then .running else e.state, e.drawFlag⟩, [.loaded rom.length]⟩
  | .error f m => ⟨.error f, { e with machine := m }, []⟩

/-- The instruction at the program counter. -/
def peek (e : Emulator) : Except Fault Instruction := do
  let op ← e.machine.memory.readWord e.pc
  Instruction.decode op

/-- Fetches, decodes and executes the instruction at the program counter. If the
instruction fails, the program counter points at it again. -/
def cycle (e : Emulator) : Response (Except Failure Unit) :=
  match e.machine.memory.readWord e.pc with
  | .error f => ⟨.error (.fault f), e, []⟩
  | .ok op =>
    match Instruction.decode op with
    | .error f => ⟨.error (.fault f), e, []⟩
    | .ok i =>
      let fetched := Record.fetched e.pc op i
      match Machine.execute i (e.machine.mapRegisters .advance) with
      | .ok .next m => ⟨.ok (), { e with machine := m }, [fetched]⟩
      | .ok .redraw m => ⟨.ok (), { e with machine := m, drawFlag := true }, [fetched]⟩
      | .ok (.awaitKey r) m =>
        ⟨.ok (), { e with machine := m, state := .awaitingKey r }, [fetched, .awaitingKey r]⟩
      | .error f m => ⟨.error f, { e with machine := m.mapRegisters (·.jump e.pc) }, [fetched]⟩

/-- Runs a cycle if the emulator is running. A fault halts it. -/
def tick (e : Emulator) : Response (Except Failure Unit) :=
  match e.state with
  | .idle | .awaitingKey _ => ⟨.ok (), e, []⟩
  | .halted => ⟨.error (.fault .halted), e, []⟩
  | .running =>
    let ⟨result, e, log⟩ := e.cycle
    match result with
    | .error (.fault f) =>
      ⟨result, { e with state := .halted }, log ++ [.halting e.pc f]⟩
    | _ => ⟨result, e, log⟩

/-- Ticks up to `n` times, and stops after the first tick that fails. The result
tells how many succeeded. -/
def ticks : Nat → Emulator → Response (Nat × Except Failure Unit)
  | 0, e => ⟨(0, .ok ()), e, []⟩
  | n + 1, e =>
    let ⟨result, e, log⟩ := e.tick
    match result with
    | .error f => ⟨(0, .error f), e, log⟩
    | .ok () =>
      let ⟨(done, result), e, rest⟩ := ticks n e
      ⟨(done + 1, result), e, log ++ rest⟩

/-! ## The outside world -/

/-- Counts both timers down. -/
def tickTimers (e : Emulator) : Emulator := { e with machine := e.machine.tickTimers }

/-- Records that a key went down or up. A press ends a wait for a key. -/
def setKey (key : Byte) (down : Bool) (e : Emulator) : Response (Except Failure Unit) :=
  match e.machine.onKeypad (Keypad.record key down) with
  | .error (.fault f) m => ⟨.error (.fault f), { e with machine := m }, [.keyIgnored f]⟩
  | .error .undefined m => ⟨.error .undefined, { e with machine := m }, []⟩
  | .ok () m =>
    match down, e.state with
    | true, .awaitingKey r =>
      ⟨.ok (), { e with machine := m.mapRegisters (·.set r key), state := .running },
        [.keyPressed key]⟩
    | _, _ => ⟨.ok (), { e with machine := m }, []⟩

/-- Resets the machine, and waits for a program again. -/
def reset (e : Emulator) : Response Unit :=
  ⟨(), ⟨e.machine.reset, .idle, false⟩, [.machineReset]⟩

/-- Tells whether the picture was drawn since the last time, and forgets it. -/
def takeDrawFlag (e : Emulator) : Response Bool := ⟨e.drawFlag, { e with drawFlag := false }, []⟩

/-! ## Ticks outside the running state -/

theorem tick_of_not_running {e : Emulator} (h : e.state ≠ .running) :
    e.tick.emulator = e ∧ e.tick.log = [] := by
  unfold tick
  split <;> simp_all

end Emulator

end Chip8
