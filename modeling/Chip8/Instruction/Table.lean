import Chip8.Fault
import Chip8.Instruction.Basic
import Chip8.Instruction.Opcode

/-!
# The instruction table

`Instruction.table` lists the opcode patterns, one row an instruction. An opcode
is decoded by the first row that accepts it (`Instruction.decodeWith`), so the
two opcodes of `CLS` and `RET` take precedence over the block of `SYS` that
contains them.
-/

namespace Chip8.Instruction

/-- A row of the table: the opcodes that agree with `bits` wherever `mask` has a
one, the name that their texts start with, and the instruction each stands for. -/
structure Pattern where
  /-- The bits that are compared. -/
  mask : Word
  /-- What they must be. -/
  bits : Word
  /-- The mnemonic. -/
  name : String
  /-- The instruction of an accepted opcode. -/
  build : Word → Instruction

/-- Whether the row accepts an opcode. -/
def Pattern.accepts (p : Pattern) (op : Word) : Bool := op &&& p.mask == p.bits

open Opcode

/-- The rows in the order in which they are tried. -/
def table : List Pattern := [
  ⟨0xFFFF, 0x00E0, "CLS", fun _ => .clear⟩,
  ⟨0xFFFF, 0x00EE, "RET", fun _ => .ret⟩,
  ⟨0xF000, 0x0000, "SYS", fun op => .sys (nnn op)⟩,
  ⟨0xF000, 0x1000, "JP", fun op => .jump (nnn op)⟩,
  ⟨0xF000, 0x2000, "CALL", fun op => .call (nnn op)⟩,
  ⟨0xF000, 0x3000, "SE", fun op => .skipEqByte (x op) (kk op)⟩,
  ⟨0xF000, 0x4000, "SNE", fun op => .skipNeByte (x op) (kk op)⟩,
  ⟨0xF00F, 0x5000, "SE", fun op => .skipEq (x op) (y op)⟩,
  ⟨0xF000, 0x6000, "LD", fun op => .loadByte (x op) (kk op)⟩,
  ⟨0xF000, 0x7000, "ADD", fun op => .addByte (x op) (kk op)⟩,
  ⟨0xF00F, 0x8000, "LD", fun op => .copy (x op) (y op)⟩,
  ⟨0xF00F, 0x8001, "OR", fun op => .or (x op) (y op)⟩,
  ⟨0xF00F, 0x8002, "AND", fun op => .and (x op) (y op)⟩,
  ⟨0xF00F, 0x8003, "XOR", fun op => .xor (x op) (y op)⟩,
  ⟨0xF00F, 0x8004, "ADD", fun op => .add (x op) (y op)⟩,
  ⟨0xF00F, 0x8005, "SUB", fun op => .sub (x op) (y op)⟩,
  ⟨0xF00F, 0x8006, "SHR", fun op => .shiftRight (x op)⟩,
  ⟨0xF00F, 0x8007, "SUBN", fun op => .subFrom (x op) (y op)⟩,
  ⟨0xF00F, 0x800E, "SHL", fun op => .shiftLeft (x op)⟩,
  ⟨0xF00F, 0x9000, "SNE", fun op => .skipNe (x op) (y op)⟩,
  ⟨0xF000, 0xA000, "LD", fun op => .setIndex (nnn op)⟩,
  ⟨0xF000, 0xB000, "JP", fun op => .jumpOffset (nnn op)⟩,
  ⟨0xF000, 0xC000, "RND", fun op => .random (x op) (kk op)⟩,
  ⟨0xF000, 0xD000, "DRW", fun op => .draw (x op) (y op) (n op)⟩,
  ⟨0xF0FF, 0xE09E, "SKP", fun op => .skipPressed (x op)⟩,
  ⟨0xF0FF, 0xE0A1, "SKNP", fun op => .skipReleased (x op)⟩,
  ⟨0xF0FF, 0xF007, "LD", fun op => .readDelay (x op)⟩,
  ⟨0xF0FF, 0xF00A, "LD", fun op => .awaitKey (x op)⟩,
  ⟨0xF0FF, 0xF015, "LD", fun op => .setDelay (x op)⟩,
  ⟨0xF0FF, 0xF018, "LD", fun op => .setSound (x op)⟩,
  ⟨0xF0FF, 0xF01E, "ADD", fun op => .addIndex (x op)⟩,
  ⟨0xF0FF, 0xF029, "LD", fun op => .pointGlyph (x op)⟩,
  ⟨0xF0FF, 0xF033, "LD", fun op => .storeDecimal (x op)⟩,
  ⟨0xF0FF, 0xF055, "LD", fun op => .storeRegisters (x op)⟩,
  ⟨0xF0FF, 0xF065, "LD", fun op => .loadRegisters (x op)⟩]

/-- The rows of the table that accept an opcode, in order. -/
def candidates (op : Word) : List Pattern := table.filter (·.accepts op)

/-- Decodes an opcode by the first of some rows that accepts it. -/
def decodeWith (rows : List Pattern) (op : Word) : Except Fault Instruction :=
  match rows.find? (·.accepts op) with
  | some p => .ok (p.build op)
  | none => .error (.invalidOpcode op)

/-- The instruction of an opcode. -/
def decode (op : Word) : Except Fault Instruction := decodeWith table op

theorem decodeWith_eq_error_iff {rows : List Pattern} {op : Word} {f : Fault} :
    decodeWith rows op = .error f ↔
      (∀ p ∈ rows, p.accepts op = false) ∧ f = .invalidOpcode op := by
  simp only [decodeWith]
  split
  · next p h =>
    have hm := List.mem_of_find?_eq_some h
    have ha := List.find?_some h
    simp only [reduceCtorEq, false_iff, not_and]
    intro hn
    simp [hn p hm] at ha
  · next h =>
    simp only [List.find?_eq_none] at h
    simp only [Except.error.injEq]
    constructor
    · rintro rfl
      exact ⟨fun p hp => by simpa using h p hp, rfl⟩
    · rintro ⟨-, rfl⟩
      rfl

end Chip8.Instruction
