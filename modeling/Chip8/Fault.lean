import Chip8.Numeral
import Chip8.Word

/-!
# Faults

Why an operation of the machine is refused, and the text that says so.
A `Failure` also covers an operation outside its domain, which has no result
at all; the instructions that `Instruction.decode` yields never get there.
-/

namespace Chip8

/-- Why the machine refuses an operation. -/
inductive Fault where
  /-- The address lies outside memory, or may not be written. -/
  | illegalAccess (address : Word)
  /-- A call with all sixteen return addresses in use. -/
  | stackOverflow
  /-- A return with no return address left. -/
  | stackUnderflow
  /-- A ROM of `size` bytes, more than the `limit` that program memory holds. -/
  | romTooLarge (size limit : Nat)
  /-- No instruction has this opcode. -/
  | invalidOpcode (opcode : Word)
  /-- The keypad has no such key. -/
  | invalidKey (key : Byte)
  /-- An earlier fault has halted the machine. -/
  | halted
deriving DecidableEq, Repr

/-- The text shown for a fault. -/
def Fault.message : Fault → String
  | .illegalAccess a => "illegal memory access at address " ++ Numeral.prefixed 4 a.toNat
  | .stackOverflow => "stack overflow: call depth exceeds 16"
  | .stackUnderflow => "stack underflow: return with empty call stack"
  | .romTooLarge size limit =>
    "ROM is too large (" ++ Numeral.decimal size ++ " bytes), max size is "
      ++ Numeral.decimal limit ++ " bytes"
  | .invalidOpcode op => "invalid opcode: " ++ Numeral.prefixed 4 op.toNat
  | .invalidKey k => "key index " ++ Numeral.prefixed 1 k.toNat ++ " is outside the keypad"
  | .halted => "machine halted after a fatal error, reset required"

/-- Why an action gives no result. -/
inductive Failure where
  /-- The machine refuses the operation. -/
  | fault (f : Fault)
  /-- The operation is applied outside its domain. -/
  | undefined
deriving DecidableEq, Repr

/-- The text shown for a failure. -/
def Failure.message : Failure → String
  | .fault f => f.message
  | .undefined => "operation outside its domain"

/-- A change of a state that gives a result or fails. A failed action also says
which state it leaves behind. -/
abbrev Action (σ α : Type) := EStateM Failure σ α

namespace Action

variable {σ τ α : Type}

/-- Gives the result of a computation that leaves the state alone. -/
def ofExcept (r : Except Fault α) : Action σ α := fun s =>
  match r with
  | .ok a => .ok a s
  | .error f => .error (.fault f) s

/-- Changes the state by a function. -/
def update (f : σ → σ) : Action σ Unit := fun s => .ok () (f s)

/-- Runs an action on a part of the state, read by `get` and put back by `put`. -/
def onPart (get : σ → τ) (put : τ → σ → σ) (act : Action τ α) : Action σ α := fun s =>
  match act (get s) with
  | .ok a t => .ok a (put t s)
  | .error e t => .error e (put t s)

end Action

end Chip8
