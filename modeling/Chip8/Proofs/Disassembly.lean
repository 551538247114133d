import Chip8.Proofs.Assembly
import Chip8.Proofs.Decode

/-!
# From opcodes to text

An instruction has one opcode, but for the two shifts: they do not look at the third digit, so each
has sixteen. Since the text of an instruction reads back, it tells the opcode up to that digit.

* `opcode_of_decode`: an opcode is the one of its instruction.
* `text_eq_text_iff`: the opcodes with the same text.
* `disassembly_faithful`: these, the mnemonics, and that no two instructions have the same text.
-/

namespace Chip8.Instruction

open Opcode

/-! ## The opcode of an instruction -/

/-- The opcode with first digit `d` and an address in the others. -/
def addressOpcode (d : Nat) (a : Word) : Word := BitVec.ofNat 16 (0x1000 * d + a.toNat)

/-- The opcode with first digit `d`, a register in the second and a byte in the others. -/
def byteOpcode (d : Nat) (x b : Byte) : Word :=
  BitVec.ofNat 16 (0x1000 * d + 0x100 * x.toNat + b.toNat)

/-- The opcode with first digit `d`, registers in the next two and `n` in the last. -/
def registersOpcode (d : Nat) (x y n : Byte) : Word :=
  BitVec.ofNat 16 (0x1000 * d + 0x100 * x.toNat + 0x10 * y.toNat + n.toNat)

/-- The opcode of an instruction; a digit that the instruction does not look at is 0. -/
def opcode : Instruction → Word
  | .sys a => addressOpcode 0x0 a
  | .clear => 0x00E0
  | .ret => 0x00EE
  | .jump a => addressOpcode 0x1 a
  | .call a => addressOpcode 0x2 a
  | .skipEqByte x b => byteOpcode 0x3 x b
  | .skipNeByte x b => byteOpcode 0x4 x b
  | .skipEq x y => registersOpcode 0x5 x y 0x0
  | .loadByte x b => byteOpcode 0x6 x b
  | .addByte x b => byteOpcode 0x7 x b
  | .copy x y => registersOpcode 0x8 x y 0x0
  | .or x y => registersOpcode 0x8 x y 0x1
  | .and x y => registersOpcode 0x8 x y 0x2
  | .xor x y => registersOpcode 0x8 x y 0x3
  | .add x y => registersOpcode 0x8 x y 0x4
  | .sub x y => registersOpcode 0x8 x y 0x5
  | .shiftRight x => registersOpcode 0x8 x 0 0x6
  | .subFrom x y => registersOpcode 0x8 x y 0x7
  | .shiftLeft x => registersOpcode 0x8 x 0 0xE
  | .skipNe x y => registersOpcode 0x9 x y 0x0
  | .setIndex a => addressOpcode 0xA a
  | .jumpOffset a => addressOpcode 0xB a
  | .random x mask => byteOpcode 0xC x mask
  | .draw x y rows => registersOpcode 0xD x y rows
  | .skipPressed x => byteOpcode 0xE x 0x9E
  | .skipReleased x => byteOpcode 0xE x 0xA1
  | .readDelay x => byteOpcode 0xF x 0x07
  | .awaitKey x => byteOpcode 0xF x 0x0A
  | .setDelay x => byteOpcode 0xF x 0x15
  | .setSound x => byteOpcode 0xF x 0x18
  | .addIndex x => byteOpcode 0xF x 0x1E
  | .pointGlyph x => byteOpcode 0xF x 0x29
  | .storeDecimal x => byteOpcode 0xF x 0x33
  | .storeRegisters x => byteOpcode 0xF x 0x55
  | .loadRegisters x => byteOpcode 0xF x 0x65

/-- Whether the instruction is a shift. -/
def isShift : Instruction → Bool
  | .shiftRight _ | .shiftLeft _ => true
  | _ => false

variable {op : Word}

/-- A run of bits, in its place. -/
theorem and_ones_mul (n start len : Nat) :
    n &&& ((2 ^ len - 1) * 2 ^ start) = n / 2 ^ start % 2 ^ len * 2 ^ start := by
  rw [← Nat.shiftLeft_eq, ← Nat.shiftLeft_eq, ← Nat.shiftRight_eq_div_pow]
  refine Nat.eq_of_testBit_eq fun i => ?_
  simp only [Nat.testBit_and, Nat.testBit_shiftLeft, Nat.testBit_two_pow_sub_one,
    Nat.testBit_mod_two_pow, Nat.testBit_shiftRight]
  by_cases h : start ≤ i
  · simp [h, Bool.and_comm]
  · simp [h]

theorem toNat_and_0FFF : (op &&& 0x0FFF#16).toNat = op.toNat % 0x1000 :=
  Nat.and_two_pow_sub_one_eq_mod op.toNat 12

theorem toNat_and_0FF0 : (op &&& 0x0FF0#16).toNat = op.toNat / 0x10 % 0x100 * 0x10 :=
  and_ones_mul op.toNat 4 8

theorem toNat_and_0F00 : (op &&& 0x0F00#16).toNat = op.toNat / 0x100 % 0x10 * 0x100 :=
  and_ones_mul op.toNat 8 4

theorem addressOpcode_nnn (d : Nat) :
    addressOpcode d (nnn op) = BitVec.ofNat 16 (0x1000 * d) + (op &&& 0x0FFF#16) := by
  refine BitVec.eq_of_toNat_eq ?_
  simp only [addressOpcode, BitVec.toNat_ofNat, BitVec.toNat_add, toNat_nnn, toNat_and_0FFF]
  omega

theorem byteOpcode_kk (d : Nat) :
    byteOpcode d (x op) (kk op) = BitVec.ofNat 16 (0x1000 * d) + (op &&& 0x0FFF#16) := by
  refine BitVec.eq_of_toNat_eq ?_
  simp only [byteOpcode, BitVec.toNat_ofNat, BitVec.toNat_add, toNat_x, toNat_kk, toNat_and_0FFF]
  omega

theorem byteOpcode_x (d : Nat) (b : Byte) :
    byteOpcode d (x op) b = BitVec.ofNat 16 (0x1000 * d + b.toNat) + (op &&& 0x0F00#16) := by
  refine BitVec.eq_of_toNat_eq ?_
  simp only [byteOpcode, BitVec.toNat_ofNat, BitVec.toNat_add, toNat_x, toNat_and_0F00]
  omega

theorem registersOpcode_n (d : Nat) :
    registersOpcode d (x op) (y op) (n op) =
      BitVec.ofNat 16 (0x1000 * d) + (op &&& 0x0FFF#16) := by
  refine BitVec.eq_of_toNat_eq ?_
  simp only [registersOpcode, BitVec.toNat_ofNat, BitVec.toNat_add, toNat_x, toNat_y, toNat_n,
    toNat_and_0FFF]
  omega

theorem registersOpcode_xy (d : Nat) (k : Byte) :
    registersOpcode d (x op) (y op) k =
      BitVec.ofNat 16 (0x1000 * d + k.toNat) + (op &&& 0x0FF0#16) := by
  refine BitVec.eq_of_toNat_eq ?_
  simp only [registersOpcode, BitVec.toNat_ofNat, BitVec.toNat_add, toNat_x, toNat_y,
    toNat_and_0FF0]
  omega

/-- The operands of an opcode, in the digits that its row does not look at. -/
def Pattern.operandBits (p : Pattern) (op : Word) : Word := op &&& ~~~p.mask

theorem bits_add_operandBits {p : Pattern} (h : p.accepts op = true) :
    p.bits + p.operandBits op = op := by
  rw [Pattern.accepts_eq_true_iff] at h
  have hor : (op &&& p.mask) ||| (op &&& ~~~p.mask) = op := by
    rw [← BitVec.and_or_distrib_left, BitVec.or_not_self, BitVec.and_allOnes]
  have hand : (op &&& p.mask) &&& (op &&& ~~~p.mask) = 0#16 := by
    ext i hi
    simp only [BitVec.getElem_and, BitVec.getElem_not, BitVec.getElem_zero]
    cases op[i] <;> cases p.mask[i] <;> rfl
  rw [Pattern.operandBits, ← h, BitVec.add_eq_or_of_and_eq_zero _ _ hand, hor]

/-- The opcode of an instruction is the bits of its row and its operands. -/
theorem opcode_build : ∀ p ∈ table, (p.build op).isShift = false →
    (p.build op).opcode = p.bits + p.operandBits op := by
  -- the rows that look at the first digit only, and then those that look at more
  simp only [table, List.forall_mem_cons, opcode, addressOpcode_nnn, byteOpcode_kk,
    registersOpcode_n]
  simp [isShift, Pattern.operandBits, byteOpcode_x, registersOpcode_xy]

/-- The opcode of an instruction that is no shift is the opcode it was decoded from. -/
theorem opcode_of_decode {i : Instruction} (h : decode op = .ok i) (hs : i.isShift = false) :
    i.opcode = op := by
  obtain ⟨p, hp, ha, -, rfl⟩ := decode_eq_ok_iff.mp h
  rw [opcode_build p hp hs, bits_add_operandBits ha]

/-! ## The text of an opcode -/

theorem mnemonic_build : ∀ p ∈ table, (p.build op).mnemonic = p.name := by
  simp [table, mnemonic]

/-- The opcodes with one text are one opcode, or opcodes of one shift of one register. -/
theorem text_eq_text_iff {a b : Word} {i j : Instruction} (ha : decode a = .ok i)
    (hb : decode b = .ok j) :
    i.text = j.text ↔ a = b ∨
      (a &&& 0xF00F = 0x8006 ∧ b &&& 0xF00F = 0x8006 ∧ x a = x b) ∨
      (a &&& 0xF00F = 0x800E ∧ b &&& 0xF00F = 0x800E ∧ x a = x b) := by
  constructor
  · intro h
    obtain rfl := text_injective h
    -- an instruction has one opcode unless it is a shift, whose third digit may be any
    cases hs : i.isShift with
    | false => exact .inl ((opcode_of_decode ha hs).symm.trans (opcode_of_decode hb hs))
    | true =>
      cases i with
      | shiftRight r =>
        obtain ⟨ha, hxa⟩ := decode_eq_shiftRight_iff.mp ha
        obtain ⟨hb, hxb⟩ := decode_eq_shiftRight_iff.mp hb
        exact .inr (.inl ⟨ha, hb, hxa.trans hxb.symm⟩)
      | shiftLeft r =>
        obtain ⟨ha, hxa⟩ := decode_eq_shiftLeft_iff.mp ha
        obtain ⟨hb, hxb⟩ := decode_eq_shiftLeft_iff.mp hb
        exact .inr (.inr ⟨ha, hb, hxa.trans hxb.symm⟩)
      | _ => cases hs
  · intro h
    have hij : decode a = decode b := by
      rcases h with rfl | ⟨ha, hb, hx⟩ | ⟨ha, hb, hx⟩
      · rfl
      · rw [decode_eq_shiftRight_iff.mpr ⟨ha, hx⟩, decode_eq_shiftRight_iff.mpr ⟨hb, rfl⟩]
      · rw [decode_eq_shiftLeft_iff.mpr ⟨ha, hx⟩, decode_eq_shiftLeft_iff.mpr ⟨hb, rfl⟩]
    rw [ha, hb] at hij
    rw [Except.ok.inj hij]

/-- Two opcodes that decode have the same text just if they are the same opcode or the same shift of
the same register. What stands in the text of an opcode before the first space is the name of the
row that decodes it. And no two instructions, decoded or not, have the same text. -/
theorem disassembly_faithful :
    (∀ (a b : Word) (i j : Instruction), decode a = .ok i → decode b = .ok j →
      (i.text = j.text ↔ a = b ∨
        (a &&& 0xF00F = 0x8006 ∧ b &&& 0xF00F = 0x8006 ∧ x a = x b) ∨
        (a &&& 0xF00F = 0x800E ∧ b &&& 0xF00F = 0x800E ∧ x a = x b))) ∧
    (∀ (op : Word) (i : Instruction), decode op = .ok i →
      ∃ p, table.find? (·.accepts op) = some p ∧
        i.text.toList.takeWhile (· ≠ ' ') = p.name.toList) ∧
    Function.Injective text := by
  refine ⟨fun a b i j => text_eq_text_iff, fun op i h => ?_, text_injective⟩
  obtain ⟨p, hp, ha, hs, rfl⟩ := decode_eq_ok_iff.mp h
  refine ⟨p, find?_table_eq_some_iff.mpr ⟨hp, ha, hs⟩, ?_⟩
  exact (mnemonicOf_text (p.build op)).trans (by rw [mnemonic_build p hp])

/-- Two opcodes of one shift have one text, and two of a disjunction have two. -/
theorem disassembly_faithful_shift :
    (∃ i j, decode 0x8A36 = .ok i ∧ decode 0x8AF6 = .ok j ∧ i.text = j.text) ∧
      (∃ i j, decode 0x8A31 = .ok i ∧ decode 0x8AF1 = .ok j ∧ i.text ≠ j.text) ∧
      ∃ i p, decode 0x8A31 = .ok i ∧ table.find? (·.accepts 0x8A31) = some p ∧
        i.text.toList.takeWhile (· ≠ ' ') = p.name.toList := by
  have h₁ : decode 0x8A36 = .ok (.shiftRight 0xA) := rfl
  have h₂ : decode 0x8AF6 = .ok (.shiftRight 0xA) := rfl
  have h₃ : decode 0x8A31 = .ok (.or 0xA 0x3) := rfl
  have h₄ : decode 0x8AF1 = .ok (.or 0xA 0xF) := rfl
  obtain ⟨htext, hname, -⟩ := disassembly_faithful
  have hsame := (htext _ _ _ _ h₁ h₂).mpr (by decide)
  have hdiffer := mt (htext _ _ _ _ h₃ h₄).mp (by decide)
  obtain ⟨p, hp, hn⟩ := hname _ _ h₃
  exact ⟨⟨_, _, h₁, h₂, hsame⟩, ⟨_, _, h₃, h₄, hdiffer⟩, ⟨_, p, h₃, hp, hn⟩⟩

end Chip8.Instruction
