import Chip8.Fault
import Chip8.Instruction.Assembly

/-!
# Log records

What the emulator and its pacers report, by cause. Each record has a level and
a text.
-/

namespace Chip8

/-- How serious a record is. -/
inductive Level where
  /-- The program cannot go on. -/
  | error
  /-- Something was ignored. -/
  | warn
  /-- A change of state. -/
  | debug
  /-- A step of the program. -/
  | trace
deriving DecidableEq, Repr

/-- An event worth reporting. -/
inductive Record where
  /-- A ROM of `size` bytes was loaded. -/
  | loaded (size : Nat)
  /-- The opcode at `pc` was fetched and decoded. -/
  | fetched (pc opcode : Word) (instruction : Instruction)
  /-- The instruction at `pc` failed. -/
  | halting (pc : Word) (fault : Fault)
  /-- The program waits for a key press. -/
  | awaitingKey (register : Byte)
  /-- A key press ended the wait. -/
  | keyPressed (key : Byte)
  /-- A key event was refused. -/
  | keyIgnored (fault : Fault)
  /-- The machine was reset. -/
  | machineReset
  /-- A pacer found `ticks` ticks due, too many to make up for. -/
  | behind (ticks : Nat)
deriving DecidableEq, Repr

namespace Record

/-- The level of a record. -/
def level : Record → Level
  | .halting .. => .error
  | .keyIgnored _ => .warn
  | .loaded _ | .awaitingKey _ | .keyPressed _ | .machineReset | .behind _ => .debug
  | .fetched .. => .trace

/-- The text of a record. -/
def text : Record → String
  | .loaded size => "loaded " ++ Numeral.decimal size ++ " byte ROM"
  | .fetched pc op i =>
    "pc: " ++ Numeral.prefixed 3 pc.toNat ++ ", opcode: " ++ Numeral.prefixed 4 op.toNat ++ ", "
      ++ i.text
  | .halting pc f => "halting at pc " ++ Numeral.prefixed 3 pc.toNat ++ ": " ++ f.message
  | .awaitingKey r => "waiting for key press into " ++ registerName r
  | .keyPressed k => "key " ++ Numeral.hex 1 k.toNat ++ " pressed, resuming"
  | .keyIgnored f => "ignoring key event: " ++ f.message
  | .machineReset => "machine reset"
  | .behind ticks => "clock fell " ++ Numeral.decimal ticks ++ " ticks behind, skipping ahead"

end Record

end Chip8
