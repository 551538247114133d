import Chip8.Word

/-!
# Instructions

The 35 instructions. A register operand is a byte whose low nibble selects the
register; `vx` and `vy` below are the values of the registers selected.
-/

namespace Chip8

/-- A decoded instruction. -/
inductive Instruction where
  /-- Calls a routine of the host: does nothing. -/
  | sys (address : Word)
  /-- Turns every pixel off. -/
  | clear
  /-- Returns from a subroutine. -/
  | ret
  /-- Continues at an address. -/
  | jump (address : Word)
  /-- Calls the subroutine at an address. -/
  | call (address : Word)
  /-- Skips the next instruction if `vx` is `byte`. -/
  | skipEqByte (x byte : Byte)
  /-- Skips the next instruction unless `vx` is `byte`. -/
  | skipNeByte (x byte : Byte)
  /-- Skips the next instruction if `vx` is `vy`. -/
  | skipEq (x y : Byte)
  /-- Sets `vx` to `byte`. -/
  | loadByte (x byte : Byte)
  /-- Adds `byte` to `vx` and sets no flag. -/
  | addByte (x byte : Byte)
  /-- Sets `vx` to `vy`. -/
  | copy (x y : Byte)
  /-- Sets `vx` to the disjunction with `vy`. -/
  | or (x y : Byte)
  /-- Sets `vx` to the conjunction with `vy`. -/
  | and (x y : Byte)
  /-- Sets `vx` to the exclusive disjunction with `vy`. -/
  | xor (x y : Byte)
  /-- Adds `vy` to `vx`; the flag is the carry. -/
  | add (x y : Byte)
  /-- Subtracts `vy` from `vx`; the flag says that nothing was borrowed. -/
  | sub (x y : Byte)
  /-- Halves `vx`; the flag is the bit shifted out. -/
  | shiftRight (x : Byte)
  /-- Sets `vx` to `vy` minus `vx`; the flag says that nothing was borrowed. -/
  | subFrom (x y : Byte)
  /-- Doubles `vx`; the flag is the bit shifted out. -/
  | shiftLeft (x : Byte)
  /-- Skips the next instruction unless `vx` is `vy`. -/
  | skipNe (x y : Byte)
  /-- Sets the index register. -/
  | setIndex (address : Word)
  /-- Continues at an address plus the value of register 0. -/
  | jumpOffset (address : Word)
  /-- Sets `vx` to a random byte masked by `mask`. -/
  | random (x mask : Byte)
  /-- Paints the sprite of `rows` bytes at the index register, at column `vx` and row `vy`. -/
  | draw (x y rows : Byte)
  /-- Skips the next instruction if the key that `vx` selects is down. -/
  | skipPressed (x : Byte)
  /-- Skips the next instruction unless the key that `vx` selects is down. -/
  | skipReleased (x : Byte)
  /-- Sets `vx` to the delay timer. -/
  | readDelay (x : Byte)
  /-- Waits for a key press and puts the key into register `x`. -/
  | awaitKey (x : Byte)
  /-- Sets the delay timer to `vx`. -/
  | setDelay (x : Byte)
  /-- Sets the sound timer to `vx`. -/
  | setSound (x : Byte)
  /-- Adds `vx` to the index register. -/
  | addIndex (x : Byte)
  /-- Points the index register at the glyph for the low nibble of `vx`. -/
  | pointGlyph (x : Byte)
  /-- Stores the three decimal digits of `vx` at the index register. -/
  | storeDecimal (x : Byte)
  /-- Stores registers 0 to `x` at the index register. -/
  | storeRegisters (x : Byte)
  /-- Loads registers 0 to `x` from the index register on. -/
  | loadRegisters (x : Byte)
deriving DecidableEq, Repr

/-- Whether the instruction is one of the two that change the picture. -/
def Instruction.draws : Instruction → Bool
  | .clear | .draw .. => true
  | _ => false

end Chip8
