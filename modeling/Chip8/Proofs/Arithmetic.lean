import Chip8.Proofs.Ownership

/-!
# Arithmetic and the flag

An instruction that computes reads VX and VY before it writes VX, and one that sets the flag
writes VF last. So the result and the flag are those of the registers as they were, whichever
registers are the same; only where VX is VF, the result is lost to the flag.

* `carry_add`, `borrow_sub`, `shiftRight_bit`, `shiftLeft_bit`: a result and a flag as numbers.
* `Machine.KeepsBut`: machines that differ in a few data registers and nowhere else.
* `computes_of_effect`, `computesFlag_of_effect`: an opcode that sets VX, and one that then sets
  the flag.
* `arithmetic_under_aliasing`: all ten instructions.
-/

namespace Chip8

open Opcode

/-! ## Bytes as numbers -/

namespace Byte

variable (a b : Byte)

theorem toNat_ofBool (c : Bool) : (ofBool c).toNat = c.toNat := by
  cases c <;> rfl

theorem toNat_decide (p : Prop) [Decidable p] : (decide p).toNat = if p then 1 else 0 := by
  by_cases h : p <;> simp [h]

theorem toNat_uaddOverflow :
    (BitVec.uaddOverflow a b).toNat = if 255 < a.toNat + b.toNat then 1 else 0 :=
  toNat_decide (255 < a.toNat + b.toNat)

theorem toNat_ule : (a.ule b).toNat = if a.toNat ≤ b.toNat then 1 else 0 :=
  toNat_decide (a.toNat ≤ b.toNat)

theorem toNat_getLsbD (i : Nat) : (a.getLsbD i).toNat = (a.toNat >>> i) % 2 := by
  rw [Nat.shiftRight_eq_div_pow]
  exact Nat.toNat_testBit a.toNat i

theorem carry_add :
    256 * (BitVec.uaddOverflow a b).toNat + (a + b).toNat = a.toNat + b.toNat := by
  have ha := a.isLt
  have hb := b.isLt
  rw [BitVec.toNat_add, toNat_uaddOverflow]
  split <;> omega

/-- A difference is too large by what was borrowed for it. -/
theorem borrow_sub :
    ((a - b).toNat : Int) = a.toNat - b.toNat + 256 * (1 - ((b.ule a).toNat : Int)) := by
  have ha := a.isLt
  have hb := b.isLt
  rw [BitVec.toNat_sub, toNat_ule]
  split <;> omega

theorem shiftRight_bit : 2 * (a >>> 1).toNat + (a.getLsbD 0).toNat = a.toNat := by
  rw [toNat_getLsbD, BitVec.toNat_ushiftRight]
  omega

theorem shiftLeft_bit : 256 * (a.getLsbD 7).toNat + (a <<< 1).toNat = 2 * a.toNat := by
  have ha := a.isLt
  rw [toNat_getLsbD, BitVec.toNat_shiftLeft, Nat.shiftLeft_eq]
  omega

end Byte

/-- A register that an opcode names is the flag if it is the last one. -/
theorem Opcode.x_eq_flagRegister {op : Word} (h : (x op).low = flagRegister.low) :
    x op = flagRegister := by
  refine BitVec.eq_of_toNat_eq ?_
  rw [← Byte.low_of_lt (toNat_x_lt op), h]
  rfl

/-! ## The flag after a result -/

namespace Machine

/-- The machines differ at most in some data registers. -/
structure KeepsBut (rs : List (Fin registerCount)) (m m' : Machine) : Prop where
  reg : ∀ r : Byte, r.low ∉ rs → m'.reg r = m.reg r
  pc : m'.registers.pc = m.registers.pc
  index : m'.registers.index = m.registers.index
  rest : { m' with registers := m.registers } = m

/-- The opcode sets VX to a value, and nothing else changes. -/
def Computes (m : Machine) (op : Word) (value : Nat) : Prop :=
  ∃ m', obey op m = .ok .next m' ∧ m.KeepsBut [(x op).low] m' ∧ (m'.reg (x op)).toNat = value

/-- The opcode sets VX and VF, and nothing else changes. VF becomes the flag, and unless VX is VF
too, a law holds of the two. -/
def ComputesFlag (m : Machine) (op : Word) (flag : Nat) (law : Nat → Nat → Prop) : Prop :=
  ∃ m', obey op m = .ok .next m' ∧ m.KeepsBut [(x op).low, flagRegister.low] m' ∧
    (m'.reg flagRegister).toNat = flag ∧
    (x op ≠ flagRegister → law (m'.reg (x op)).toNat (m'.reg flagRegister).toNat)

variable {m : Machine} {op : Word} {i : Instruction}

theorem computes_of_effect {v : Byte} {value : Nat} (he : Encodes op i)
    (hr : m.refusal i = none) (hf : i.flow = .next)
    (hm : m.effect i = m.mapRegisters (·.set (x op) v)) (hv : v.toNat = value) :
    m.Computes op value := by
  refine ⟨_, obey_eq_ok_iff.mpr ⟨i, he, hr, hf, hm⟩, ⟨fun r hrs => ?_, rfl, rfl, rfl⟩, ?_⟩
  · rw [List.mem_singleton] at hrs
    exact Decidable.byContradiction fun hne => hrs (Registers.low_eq_of_get_set_ne hne)
  · show ((m.registers.set (x op) v).get (x op)).toNat = value
    rw [Registers.get_set_self, hv]

theorem computesFlag_of_effect {v : Byte} {c : Bool} {flag : Nat} {law : Nat → Nat → Prop}
    (he : Encodes op i) (hr : m.refusal i = none) (hf : i.flow = .next)
    (hm : m.effect i = m.mapRegisters fun r => (r.set (x op) v).setFlag c) (hc : c.toNat = flag)
    (hv : law v.toNat c.toNat) : m.ComputesFlag op flag law := by
  have hflag : (((m.registers.set (x op) v).setFlag c).get flagRegister).toNat = c.toNat := by
    rw [Registers.get_setFlag, Byte.toNat_ofBool]
  refine ⟨_, obey_eq_ok_iff.mpr ⟨i, he, hr, hf, hm⟩, ⟨fun r hrs => ?_, rfl, rfl, rfl⟩,
    hflag.trans hc, fun hx => ?_⟩
  · refine Decidable.byContradiction fun hne => hrs ?_
    rw [List.mem_cons, List.mem_singleton]
    exact Registers.low_eq_of_get_setFlag_ne hne
  · show law (((m.registers.set (x op) v).setFlag c).get (x op)).toNat
      (((m.registers.set (x op) v).setFlag c).get flagRegister).toNat
    rw [hflag, Registers.get_setFlag_of_ne (mt x_eq_flagRegister hx), Registers.get_set_self]
    exact hv

/-- With `a` for VX and `b` for VY before: 8XY4 sets VF to the carry, 8XY5 and 8XY7 set it to 1 if
nothing is borrowed, and 8XY6 and 8XYE to the bit shifted out. Where VX is another register than
VF, the two together are the exact result. 8XY0 to 8XY3 and 7XNN set VX only, also if that is VF. -/
theorem arithmetic_under_aliasing (m : Machine) (op : Word) :
    let a := (m.reg (x op)).toNat
    let b := (m.reg (y op)).toNat
    (op &&& 0xF00F = 0x8004 →
      m.ComputesFlag op (if 255 < a + b then 1 else 0) fun v f => 256 * f + v = a + b) ∧
    (op &&& 0xF00F = 0x8005 →
      m.ComputesFlag op (if b ≤ a then 1 else 0) fun v f =>
        (v : Int) = a - b + 256 * (1 - f)) ∧
    (op &&& 0xF00F = 0x8007 →
      m.ComputesFlag op (if a ≤ b then 1 else 0) fun v f =>
        (v : Int) = b - a + 256 * (1 - f)) ∧
    (op &&& 0xF00F = 0x8006 → m.ComputesFlag op (a % 2) fun v f => 2 * v + f = a) ∧
    (op &&& 0xF00F = 0x800E → m.ComputesFlag op (a / 128) fun v f => 256 * f + v = 2 * a) ∧
    (op &&& 0xF00F = 0x8000 → m.Computes op b) ∧
    (op &&& 0xF00F = 0x8001 → m.Computes op (a ||| b)) ∧
    (op &&& 0xF00F = 0x8002 → m.Computes op (a &&& b)) ∧
    (op &&& 0xF00F = 0x8003 → m.Computes op (a ^^^ b)) ∧
    (op &&& 0xF000 = 0x7000 → m.Computes op ((a + (kk op).toNat) % 256)) := by
  intro a b
  refine ⟨fun ho => ?_, fun ho => ?_, fun ho => ?_, fun ho => ?_, fun ho => ?_, fun ho => ?_,
    fun ho => ?_, fun ho => ?_, fun ho => ?_, fun ho => ?_⟩
  · exact computesFlag_of_effect (i := .add _ _) ⟨ho, rfl, rfl⟩ rfl rfl rfl
      (Byte.toNat_uaddOverflow _ _) (Byte.carry_add _ _)
  · exact computesFlag_of_effect (i := .sub _ _) ⟨ho, rfl, rfl⟩ rfl rfl rfl
      (Byte.toNat_ule _ _) (Byte.borrow_sub _ _)
  · exact computesFlag_of_effect (i := .subFrom _ _) ⟨ho, rfl, rfl⟩ rfl rfl rfl
      (Byte.toNat_ule _ _) (Byte.borrow_sub _ _)
  · refine computesFlag_of_effect (i := .shiftRight _) ⟨ho, rfl⟩ rfl rfl rfl ?_
      (Byte.shiftRight_bit _)
    rw [Byte.toNat_getLsbD, Nat.shiftRight_zero]
  · refine computesFlag_of_effect (i := .shiftLeft _) ⟨ho, rfl⟩ rfl rfl rfl ?_
      (Byte.shiftLeft_bit _)
    have ha := (m.reg (x op)).isLt
    rw [Byte.toNat_getLsbD]
    omega
  · exact computes_of_effect (i := .copy _ _) ⟨ho, rfl, rfl⟩ rfl rfl rfl rfl
  · exact computes_of_effect (i := .or _ _) ⟨ho, rfl, rfl⟩ rfl rfl rfl (BitVec.toNat_or _ _)
  · exact computes_of_effect (i := .and _ _) ⟨ho, rfl, rfl⟩ rfl rfl rfl (BitVec.toNat_and _ _)
  · exact computes_of_effect (i := .xor _ _) ⟨ho, rfl, rfl⟩ rfl rfl rfl (BitVec.toNat_xor _ _)
  · exact computes_of_effect (i := .addByte _ _) ⟨ho, rfl, rfl⟩ rfl rfl rfl
      (BitVec.toNat_add _ _)

/-- VF as the first operand of a sum, where the carry is all that is left, and as the second
operand of a difference, where it is gone afterwards. -/
theorem arithmetic_under_aliasing_flag :
    let m := (fresh (.ofSeed 7)).mapRegisters fun r => (r.set 0xF 0xFF).set 1 0x02
    (∃ m', obey 0x8F14 m = .ok .next m' ∧ (m'.reg 0xF).toNat = 1) ∧
      ∃ m', obey 0x81F5 m = .ok .next m' ∧ (m'.reg 0xF).toNat = 0 ∧ (m'.reg 1).toNat = 3 := by
  intro m
  have ha : (m.reg (x 0x81F5)).toNat = 2 := by decide
  have hb : (m.reg (y 0x81F5)).toNat = 255 := by decide
  obtain ⟨s, hs, -, hcarry, -⟩ := (arithmetic_under_aliasing m 0x8F14).1 (by decide)
  obtain ⟨d, hd, -, hborrow, hlaw⟩ := (arithmetic_under_aliasing m 0x81F5).2.1 (by decide)
  rw [ha, hb, if_neg (by decide)] at hborrow
  have hlaw := hlaw (by decide)
  rw [ha, hb, hborrow] at hlaw
  exact ⟨⟨s, hs, hcarry⟩, ⟨d, hd, hborrow, Int.ofNat_inj.mp hlaw⟩⟩

end Machine

end Chip8
