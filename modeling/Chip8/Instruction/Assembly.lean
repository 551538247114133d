import Chip8.Instruction.Basic
import Chip8.Numeral

/-!
# Assembly text

An instruction is written as its mnemonic and its operands, separated by
commas: `DRW V0, V1, 5`. A register is `V` and its number, a byte has two
hexadecimal digits after `0x` and an address three; larger numbers take as
many digits as they need.
-/

namespace Chip8

/-- What stands after a mnemonic. -/
inductive Operand where
  /-- A data register. -/
  | register (r : Byte)
  /-- A constant byte. -/
  | byte (b : Byte)
  /-- An address. -/
  | address (a : Word)
  /-- A number of rows. -/
  | count (n : Byte)
  /-- The index register. -/
  | index
  /-- The memory that the index register points at. -/
  | indirect
  /-- The delay timer. -/
  | delay
  /-- The sound timer. -/
  | sound
  /-- The next key press. -/
  | key
  /-- The glyph of a digit. -/
  | glyph
  /-- The decimal digits of a number. -/
  | decimal
deriving DecidableEq, Repr

/-- The text of a register. -/
def registerName (r : Byte) : String := "V" ++ Numeral.hex 1 r.toNat

/-- The text of an operand. -/
def Operand.text : Operand → String
  | .register r => registerName r
  | .byte b => Numeral.prefixed 2 b.toNat
  | .address a => Numeral.prefixed 3 a.toNat
  | .count n => Numeral.decimal n.toNat
  | .index => "I"
  | .indirect => "[I]"
  | .delay => "DT"
  | .sound => "ST"
  | .key => "K"
  | .glyph => "F"
  | .decimal => "B"

namespace Instruction

/-- The mnemonic. -/
def mnemonic : Instruction → String
  | .sys _ => "SYS"
  | .clear => "CLS"
  | .ret => "RET"
  | .jump _ | .jumpOffset _ => "JP"
  | .call _ => "CALL"
  | .skipEqByte .. | .skipEq .. => "SE"
  | .skipNeByte .. | .skipNe .. => "SNE"
  | .loadByte .. | .copy .. | .setIndex _ | .readDelay _ | .awaitKey _ | .setDelay _
  | .setSound _ | .pointGlyph _ | .storeDecimal _ | .storeRegisters _ | .loadRegisters _ => "LD"
  | .addByte .. | .add .. | .addIndex _ => "ADD"
  | .or .. => "OR"
  | .and .. => "AND"
  | .xor .. => "XOR"
  | .sub .. => "SUB"
  | .shiftRight _ => "SHR"
  | .subFrom .. => "SUBN"
  | .shiftLeft _ => "SHL"
  | .random .. => "RND"
  | .draw .. => "DRW"
  | .skipPressed _ => "SKP"
  | .skipReleased _ => "SKNP"

/-- The operands, in the order in which they are written. -/
def operands : Instruction → List Operand
  | .clear | .ret => []
  | .sys a | .jump a | .call a => [.address a]
  | .skipEqByte x b | .skipNeByte x b | .loadByte x b | .addByte x b | .random x b =>
    [.register x, .byte b]
  | .skipEq x y | .skipNe x y | .copy x y | .or x y | .and x y | .xor x y | .add x y | .sub x y
  | .subFrom x y => [.register x, .register y]
  | .shiftRight x | .shiftLeft x | .skipPressed x | .skipReleased x => [.register x]
  | .setIndex a => [.index, .address a]
  | .jumpOffset a => [.register 0, .address a]
  | .draw x y n => [.register x, .register y, .count n]
  | .readDelay x => [.register x, .delay]
  | .awaitKey x => [.register x, .key]
  | .setDelay x => [.delay, .register x]
  | .setSound x => [.sound, .register x]
  | .addIndex x => [.index, .register x]
  | .pointGlyph x => [.glyph, .register x]
  | .storeDecimal x => [.decimal, .register x]
  | .storeRegisters x => [.indirect, .register x]
  | .loadRegisters x => [.register x, .indirect]

/-- The assembly text. -/
def text (i : Instruction) : String :=
  match i.operands with
  | [] => i.mnemonic
  | ops => i.mnemonic ++ " " ++ ", ".intercalate (ops.map Operand.text)

example : (draw 0 1 5).text = "DRW V0, V1, 5" := by decide

example : (storeRegisters 0xE).text = "LD [I], VE" := by decide

end Instruction

end Chip8
