import Chip8.Instruction.Assembly
import Chip8.Instruction.Table

/-!
# Decoding by any row

The rows of the instruction table after those of `CLS` and `RET` are pairwise
apart: no opcode agrees with two of them. So an opcode is decoded by whichever
row accepts it, but for the two opcodes that `SYS` shares.

* `decode_eq_ok_iff`: the instruction of an opcode, row by row.
* `decode_eq_ok_iff_encodes`: the opcodes of an instruction (`Opcode.Encodes`).
* `decode_eq_ret_iff`, …, `decode_eq_setSound_iff`: the same for the instructions
  that can fail, wait for a key or point at a glyph, for those that touch the
  screen, the random source, the keypad or the timers, and for the shifts.
* `inRange_of_decode`: operands fit into the digits they are read from.
-/

namespace Chip8

/-- The operand fits into the digits of an opcode that hold it. -/
def Operand.InRange : Operand → Prop
  | .register r => r.toNat < 16
  | .address a => a.toNat < 0x1000
  | .count k => k.toNat < 16
  | _ => True

/-- The opcode stands for the instruction: the digits that tell it from the others are
there, and its operands are in the digits left. -/
def Opcode.Encodes (op : Word) : Instruction → Prop
  | .sys a => op &&& 0xF000 = 0x0000 ∧ op ≠ 0x00E0 ∧ op ≠ 0x00EE ∧ nnn op = a
  | .clear => op = 0x00E0
  | .ret => op = 0x00EE
  | .jump a => op &&& 0xF000 = 0x1000 ∧ nnn op = a
  | .call a => op &&& 0xF000 = 0x2000 ∧ nnn op = a
  | .skipEqByte r b => op &&& 0xF000 = 0x3000 ∧ x op = r ∧ kk op = b
  | .skipNeByte r b => op &&& 0xF000 = 0x4000 ∧ x op = r ∧ kk op = b
  | .skipEq r q => op &&& 0xF00F = 0x5000 ∧ x op = r ∧ y op = q
  | .loadByte r b => op &&& 0xF000 = 0x6000 ∧ x op = r ∧ kk op = b
  | .addByte r b => op &&& 0xF000 = 0x7000 ∧ x op = r ∧ kk op = b
  | .copy r q => op &&& 0xF00F = 0x8000 ∧ x op = r ∧ y op = q
  | .or r q => op &&& 0xF00F = 0x8001 ∧ x op = r ∧ y op = q
  | .and r q => op &&& 0xF00F = 0x8002 ∧ x op = r ∧ y op = q
  | .xor r q => op &&& 0xF00F = 0x8003 ∧ x op = r ∧ y op = q
  | .add r q => op &&& 0xF00F = 0x8004 ∧ x op = r ∧ y op = q
  | .sub r q => op &&& 0xF00F = 0x8005 ∧ x op = r ∧ y op = q
  | .shiftRight r => op &&& 0xF00F = 0x8006 ∧ x op = r
  | .subFrom r q => op &&& 0xF00F = 0x8007 ∧ x op = r ∧ y op = q
  | .shiftLeft r => op &&& 0xF00F = 0x800E ∧ x op = r
  | .skipNe r q => op &&& 0xF00F = 0x9000 ∧ x op = r ∧ y op = q
  | .setIndex a => op &&& 0xF000 = 0xA000 ∧ nnn op = a
  | .jumpOffset a => op &&& 0xF000 = 0xB000 ∧ nnn op = a
  | .random r mask => op &&& 0xF000 = 0xC000 ∧ x op = r ∧ kk op = mask
  | .draw r q rows => op &&& 0xF000 = 0xD000 ∧ x op = r ∧ y op = q ∧ n op = rows
  | .skipPressed r => op &&& 0xF0FF = 0xE09E ∧ x op = r
  | .skipReleased r => op &&& 0xF0FF = 0xE0A1 ∧ x op = r
  | .readDelay r => op &&& 0xF0FF = 0xF007 ∧ x op = r
  | .awaitKey r => op &&& 0xF0FF = 0xF00A ∧ x op = r
  | .setDelay r => op &&& 0xF0FF = 0xF015 ∧ x op = r
  | .setSound r => op &&& 0xF0FF = 0xF018 ∧ x op = r
  | .addIndex r => op &&& 0xF0FF = 0xF01E ∧ x op = r
  | .pointGlyph r => op &&& 0xF0FF = 0xF029 ∧ x op = r
  | .storeDecimal r => op &&& 0xF0FF = 0xF033 ∧ x op = r
  | .storeRegisters r => op &&& 0xF0FF = 0xF055 ∧ x op = r
  | .loadRegisters r => op &&& 0xF0FF = 0xF065 ∧ x op = r

namespace Instruction

open Opcode

/-! ## Rows that are apart -/

/-- The rows ask for different bits where both of them look. -/
def Pattern.Apart (p q : Pattern) : Prop := p.bits &&& q.mask ≠ q.bits &&& p.mask

instance : DecidableRel Pattern.Apart := fun p q =>
  inferInstanceAs (Decidable (p.bits &&& q.mask ≠ q.bits &&& p.mask))

theorem Pattern.accepts_eq_true_iff {p : Pattern} {op : Word} :
    p.accepts op = true ↔ op &&& p.mask = p.bits := beq_iff_eq

theorem Pattern.Apart.not_accepts {p q : Pattern} {op : Word} (h : p.Apart q)
    (hq : q.accepts op = true) : p.accepts op = false := by
  rw [Bool.eq_false_iff]
  intro hp
  rw [accepts_eq_true_iff] at hp hq
  refine h ?_
  rw [← hp, ← hq, BitVec.and_assoc, BitVec.and_assoc, BitVec.and_comm p.mask]

theorem find?_of_pairwise_apart {rows : List Pattern} (hr : rows.Pairwise Pattern.Apart)
    {p : Pattern} (hp : p ∈ rows) {op : Word} (ha : p.accepts op = true) :
    rows.find? (·.accepts op) = some p := by
  induction rows with
  | nil => cases hp
  | cons q rows ih =>
    rw [List.pairwise_cons] at hr
    rcases List.mem_cons.mp hp with rfl | hp
    · simp only [List.find?_cons, ha]
    · simp only [List.find?_cons, (hr.1 p hp).not_accepts ha]
      exact ih hr.2 hp

/-- The rows of `CLS` and `RET` are apart from every later row but that of `SYS`. -/
theorem apart_of_mem_drop {p q : Pattern} (hp : p ∈ table.take 2) (hq : q ∈ table.drop 2)
    (hn : q.name ≠ "SYS") : p.Apart q := by
  have h : ∀ p ∈ table.take 2, ∀ q ∈ table.drop 2, q.name ≠ "SYS" → p.Apart q := by decide
  exact h p hp q hq hn

theorem pairwise_apart_drop : (table.drop 2).Pairwise Pattern.Apart := by decide

/-! ## The row of an opcode -/

/-- The rows of `CLS` and `RET` accept one opcode each. -/
theorem accepts_of_mem_take {p : Pattern} (hp : p ∈ table.take 2) {op : Word}
    (ha : p.accepts op = true) : op = 0x00E0 ∨ op = 0x00EE := by
  have h : ∀ p ∈ table.take 2,
      p.mask = BitVec.allOnes 16 ∧ (p.bits = 0x00E0 ∨ p.bits = 0x00EE) := by
    decide
  obtain ⟨hm, hb⟩ := h p hp
  rw [Pattern.accepts_eq_true_iff, hm, BitVec.and_allOnes] at ha
  rwa [ha]

/-- The first row that accepts an opcode is any row that accepts it, but for the
two opcodes that are carved out of `SYS`. -/
theorem find?_table_eq_some_iff {op : Word} {p : Pattern} :
    table.find? (·.accepts op) = some p ↔
      p ∈ table ∧ p.accepts op = true ∧ (p.name = "SYS" → op ≠ 0x00E0 ∧ op ≠ 0x00EE) := by
  constructor
  · intro h
    have ha := List.find?_some h
    refine ⟨List.mem_of_find?_eq_some h, ha, fun hn => ⟨?_, ?_⟩⟩ <;>
    · rintro rfl
      obtain rfl := Option.some.inj h
      exact absurd hn (by decide)
  · rintro ⟨hp, ha, hs⟩
    rw [← List.take_append_drop 2 table, List.mem_append] at hp
    rcases hp with hp | hp
    · rcases accepts_of_mem_take hp ha with rfl | rfl
      all_goals
        simp only [table, List.take_succ_cons, List.take_zero, List.mem_cons, List.not_mem_nil,
          or_false] at hp
        rcases hp with rfl | rfl
      · rfl
      · exact absurd ha (by decide)
      · exact absurd ha (by decide)
      · rfl
    · have hf : (table.take 2).find? (·.accepts op) = none := by
        rw [List.find?_eq_none]
        intro q hq haq
        by_cases hn : p.name = "SYS"
        · rcases accepts_of_mem_take hq haq with h | h
          · exact (hs hn).1 h
          · exact (hs hn).2 h
        · rw [(apart_of_mem_drop hq hp hn).not_accepts ha] at haq
          cases haq
      rw [← List.take_append_drop 2 table, List.find?_append, hf, Option.none_or]
      exact find?_of_pairwise_apart pairwise_apart_drop hp ha

theorem decode_eq_ok_iff {op : Word} {i : Instruction} :
    decode op = .ok i ↔
      ∃ p ∈ table, p.accepts op = true ∧ (p.name = "SYS" → op ≠ 0x00E0 ∧ op ≠ 0x00EE) ∧
        p.build op = i := by
  have h : decode op = .ok i ↔ ∃ p, table.find? (·.accepts op) = some p ∧ p.build op = i := by
    simp only [decode, decodeWith]
    cases table.find? (·.accepts op) <;> simp
  simp only [h, find?_table_eq_some_iff, and_assoc]

/-! ## The opcodes of an instruction -/

theorem decode_eq_ok_iff_encodes {op : Word} {i : Instruction} :
    decode op = .ok i ↔ Opcode.Encodes op i := by
  have h : op &&& 65535#16 = op := BitVec.and_allOnes
  simp only [decode_eq_ok_iff, table, Pattern.accepts, List.mem_cons, List.not_mem_nil, or_false,
    exists_eq_or_imp, exists_eq_left, beq_iff_eq, String.reduceEq, false_imp_iff, true_imp_iff,
    true_and]
  cases i <;> simp [Opcode.Encodes, h, and_assoc]

section

variable {op a : Word} {x y rows mask : Byte}

theorem decode_eq_ret_iff : decode op = .ok .ret ↔ op = 0x00EE :=
  decode_eq_ok_iff_encodes

theorem decode_eq_call_iff :
    decode op = .ok (.call a) ↔ op &&& 0xF000 = 0x2000 ∧ nnn op = a :=
  decode_eq_ok_iff_encodes

theorem decode_eq_draw_iff :
    decode op = .ok (.draw x y rows) ↔
      op &&& 0xF000 = 0xD000 ∧ Opcode.x op = x ∧ Opcode.y op = y ∧ n op = rows :=
  decode_eq_ok_iff_encodes

theorem decode_eq_storeDecimal_iff :
    decode op = .ok (.storeDecimal x) ↔ op &&& 0xF0FF = 0xF033 ∧ Opcode.x op = x :=
  decode_eq_ok_iff_encodes

theorem decode_eq_storeRegisters_iff :
    decode op = .ok (.storeRegisters x) ↔ op &&& 0xF0FF = 0xF055 ∧ Opcode.x op = x :=
  decode_eq_ok_iff_encodes

theorem decode_eq_loadRegisters_iff :
    decode op = .ok (.loadRegisters x) ↔ op &&& 0xF0FF = 0xF065 ∧ Opcode.x op = x :=
  decode_eq_ok_iff_encodes

theorem decode_eq_awaitKey_iff :
    decode op = .ok (.awaitKey x) ↔ op &&& 0xF0FF = 0xF00A ∧ Opcode.x op = x :=
  decode_eq_ok_iff_encodes

theorem decode_eq_pointGlyph_iff :
    decode op = .ok (.pointGlyph x) ↔ op &&& 0xF0FF = 0xF029 ∧ Opcode.x op = x :=
  decode_eq_ok_iff_encodes

theorem decode_eq_clear_iff : decode op = .ok .clear ↔ op = 0x00E0 :=
  decode_eq_ok_iff_encodes

theorem decode_eq_random_iff :
    decode op = .ok (.random x mask) ↔
      op &&& 0xF000 = 0xC000 ∧ Opcode.x op = x ∧ kk op = mask :=
  decode_eq_ok_iff_encodes

theorem decode_eq_shiftRight_iff :
    decode op = .ok (.shiftRight x) ↔ op &&& 0xF00F = 0x8006 ∧ Opcode.x op = x :=
  decode_eq_ok_iff_encodes

theorem decode_eq_shiftLeft_iff :
    decode op = .ok (.shiftLeft x) ↔ op &&& 0xF00F = 0x800E ∧ Opcode.x op = x :=
  decode_eq_ok_iff_encodes

theorem decode_eq_skipPressed_iff :
    decode op = .ok (.skipPressed x) ↔ op &&& 0xF0FF = 0xE09E ∧ Opcode.x op = x :=
  decode_eq_ok_iff_encodes

theorem decode_eq_skipReleased_iff :
    decode op = .ok (.skipReleased x) ↔ op &&& 0xF0FF = 0xE0A1 ∧ Opcode.x op = x :=
  decode_eq_ok_iff_encodes

theorem decode_eq_readDelay_iff :
    decode op = .ok (.readDelay x) ↔ op &&& 0xF0FF = 0xF007 ∧ Opcode.x op = x :=
  decode_eq_ok_iff_encodes

theorem decode_eq_setDelay_iff :
    decode op = .ok (.setDelay x) ↔ op &&& 0xF0FF = 0xF015 ∧ Opcode.x op = x :=
  decode_eq_ok_iff_encodes

theorem decode_eq_setSound_iff :
    decode op = .ok (.setSound x) ↔ op &&& 0xF0FF = 0xF018 ∧ Opcode.x op = x :=
  decode_eq_ok_iff_encodes

end

/-! ## Operands -/

/-- The operands of a decoded instruction fit into the digits they are read from. -/
theorem inRange_of_decode {op : Word} {i : Instruction} (h : decode op = .ok i) :
    ∀ o ∈ i.operands, o.InRange := by
  have hx := toNat_x_lt op
  have hy := toNat_y_lt op
  have hn := toNat_n_lt op
  have ha : (nnn op).toNat < 0x1000 := by rw [toNat_nnn]; omega
  have hr : ∀ p ∈ table, ∀ o ∈ (p.build op).operands, o.InRange := by
    simp [table, operands, Operand.InRange, hx, hy, hn, ha]
  obtain ⟨p, hp, -, -, rfl⟩ := decode_eq_ok_iff.mp h
  exact hr p hp

end Instruction

end Chip8
