import Chip8.CallStack
import Chip8.Keypad
import Chip8.Memory.Basic
import Chip8.Random.Basic
import Chip8.Registers
import Chip8.Screen
import Chip8.Timers

/-!
# The machine

Everything that an instruction can touch. Machines are `Alike` if they agree on
all but their random sources, which no program can see without drawing from them.

* `reset_eq_fresh`: a reset part by part makes up the machine at power-on.
-/

namespace Chip8

/-- The parts of the machine. -/
@[ext] structure Machine where
  /-- The contents of memory. -/
  memory : Memory
  /-- The registers. -/
  registers : Registers
  /-- The call stack. -/
  stack : CallStack
  /-- The picture. -/
  screen : Screen
  /-- The timers. -/
  timers : Timers
  /-- The keypad. -/
  keypad : Keypad
  /-- The source of random bytes. -/
  random : RandomSource
deriving DecidableEq

namespace Machine

/-- The machine at power-on, with a source of random bytes. -/
def fresh (random : RandomSource) : Machine where
  memory := .fresh
  registers := .fresh
  stack := ∅
  screen := .blank
  timers := .stopped
  keypad := .released
  random := random

/-- Brings every part back to its power-on state; random bytes go on where they were. -/
def reset (m : Machine) : Machine :=
  { m with
    memory := m.memory.reset
    registers := .fresh
    stack := ∅
    screen := m.screen.clear
    timers := .stopped
    keypad := .released }

theorem reset_eq_fresh (m : Machine) : m.reset = fresh m.random := by
  rw [reset, m.memory.reset_eq_fresh, m.screen.clear_eq_blank, fresh]

/-- The machines agree on all but their random sources. -/
def Alike (m m' : Machine) : Prop :=
  m.memory = m'.memory ∧ m.registers = m'.registers ∧ m.stack = m'.stack ∧
    m.screen = m'.screen ∧ m.timers = m'.timers ∧ m.keypad = m'.keypad

instance (m m' : Machine) : Decidable (m.Alike m') := by
  unfold Alike
  infer_instance

theorem alike_iff {m m' : Machine} : m.Alike m' ↔ { m with random := m'.random } = m' := by
  simp [Alike, Machine.ext_iff]

/-- Changes the registers. -/
def mapRegisters (f : Registers → Registers) (m : Machine) : Machine :=
  { m with registers := f m.registers }

/-- The value of register `r`. -/
def reg (m : Machine) (r : Byte) : Byte := m.registers.get r

/-- Runs an action on memory. -/
def onMemory {α : Type} (act : Action Memory α) : Action Machine α :=
  Action.onPart Machine.memory (fun mem m => { m with memory := mem }) act

/-- Runs an action on the call stack. -/
def onStack {α : Type} (act : Action CallStack α) : Action Machine α :=
  Action.onPart Machine.stack (fun s m => { m with stack := s }) act

/-- Runs an action on the keypad. -/
def onKeypad {α : Type} (act : Action Keypad α) : Action Machine α :=
  Action.onPart Machine.keypad (fun k m => { m with keypad := k }) act

/-- Counts both timers down. -/
def tickTimers (m : Machine) : Machine := { m with timers := m.timers.tick }

end Machine

end Chip8
