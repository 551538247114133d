import Chip8.Proofs.Decode
import Chip8.Proofs.Execute

/-!
# What an opcode may change

A machine obeys an opcode by applying the instruction that it stands for (`Machine.obey`). Each
part of the machine belongs to a few opcodes, and no others change it.

* `obey_of_encodes`, `obey_eq_ok_iff`: obeying an opcode, by the guard and the effect of its
  instruction.
* `Machine.Tests`, `pc_of_tests`: the opcodes that may skip, and when they do.
* `Opcode.MaySet`, `maySet_of_reg_ne`: the data registers that an opcode may set.
* `obey_changes_only_owned`: all parts together (`Machine.Owned`).
-/

namespace Chip8

open Opcode

/-- The data registers that an opcode may set. -/
inductive Opcode.MaySet (op : Word) (r : Fin registerCount) : Prop
  /-- VX, by 6XNN, 7XNN, 8XY0 to 8XY3, CXNN and FX07. -/
  | result (h : op &&& 0xF000 ∈ [0x6000, 0x7000, 0xC000] ∨
      op &&& 0xF00F ∈ [0x8000, 0x8001, 0x8002, 0x8003] ∨ op &&& 0xF0FF = 0xF007)
    (hr : r = (x op).low)
  /-- VX and VF, by 8XY4 to 8XY7 and 8XYE. -/
  | flagged (h : op &&& 0xF00F ∈ [0x8004, 0x8005, 0x8006, 0x8007, 0x800E])
    (hr : r = (x op).low ∨ r = flagRegister.low)
  /-- VF, by DXYN. -/
  | collision (h : op &&& 0xF000 = 0xD000) (hr : r = flagRegister.low)
  /-- V0 to VX, by FX65. -/
  | loaded (h : op &&& 0xF0FF = 0xF065) (hr : r.val ≤ (x op).toNat)

/-- The opcode is of the form 1NNN, 2NNN or BNNN, or 00EE. -/
def Opcode.Jumps (op : Word) : Prop := op &&& 0xF000 ∈ [0x1000, 0x2000, 0xB000] ∨ op = 0x00EE

namespace Machine

/-! ## Obeying an opcode -/

/-- Decodes an opcode and applies its instruction. -/
def obey (op : Word) : Action Machine Flow := do
  let i ← Action.ofExcept (Instruction.decode op)
  execute i

variable {op : Word} {i : Instruction} {m m' : Machine} {flow : Flow}

theorem obey_of_encodes (h : Encodes op i) (m : Machine) :
    obey op m = match m.refusal i with
      | some f => .error f m
      | none => .ok i.flow (m.effect i) := by
  rw [obey, Action.bind_apply, Instruction.decode_eq_ok_iff_encodes.mpr h, Action.ofExcept_ok]
  exact execute_eq i m

theorem obey_eq_ok_iff :
    obey op m = .ok flow m' ↔
      ∃ i, Encodes op i ∧ m.refusal i = none ∧ i.flow = flow ∧ m.effect i = m' := by
  constructor
  · intro h
    rw [obey, Action.bind_apply] at h
    cases hd : Instruction.decode op with
    | error f =>
      rw [hd] at h
      cases h
    | ok i =>
      rw [hd, Action.ofExcept_ok] at h
      replace h : execute i m = .ok flow m' := h
      rw [execute_eq] at h
      cases hr : m.refusal i with
      | some f =>
        rw [hr] at h
        cases h
      | none =>
        rw [hr] at h
        cases h
        exact ⟨i, Instruction.decode_eq_ok_iff_encodes.mp hd, hr, rfl, rfl⟩
  · rintro ⟨i, hi, hr, rfl, rfl⟩
    rw [obey_of_encodes hi, hr]

/-- An opcode stands for one instruction. -/
theorem encodes_unique {j : Instruction} (hi : Encodes op i) (hj : Encodes op j) : i = j := by
  rw [← Instruction.decode_eq_ok_iff_encodes] at hi hj
  exact Except.ok.inj (hi.symm.trans hj)

/-! ## The program counter -/

/-- The opcode skips the next instruction if a condition holds. -/
inductive Tests (m : Machine) (op : Word) : Bool → Prop
  /-- 3XNN: VX is NN. -/
  | eqByte (h : op &&& 0xF000 = 0x3000) : Tests m op (m.reg (x op) == kk op)
  /-- 4XNN: VX is not NN. -/
  | neByte (h : op &&& 0xF000 = 0x4000) : Tests m op (m.reg (x op) != kk op)
  /-- 5XY0: VX is VY. -/
  | eq (h : op &&& 0xF00F = 0x5000) : Tests m op (m.reg (x op) == m.reg (y op))
  /-- 9XY0: VX is not VY. -/
  | ne (h : op &&& 0xF00F = 0x9000) : Tests m op (m.reg (x op) != m.reg (y op))
  /-- EX9E: the key that VX selects is down. -/
  | pressed (h : op &&& 0xF0FF = 0xE09E) : Tests m op (m.keypad.isDown (m.reg (x op)))
  /-- EXA1: the key that VX selects is up. -/
  | released (h : op &&& 0xF0FF = 0xE0A1) : Tests m op (!m.keypad.isDown (m.reg (x op)))

theorem Tests.exists_encodes {c : Bool} (h : m.Tests op c) :
    ∃ i, Encodes op i ∧
      (m.effect i).registers.pc = if c then m.registers.pc + 2 else m.registers.pc := by
  cases h with
  | eqByte ho => exact ⟨.skipEqByte _ _, ⟨ho, rfl, rfl⟩, m.pc_skip _⟩
  | neByte ho => exact ⟨.skipNeByte _ _, ⟨ho, rfl, rfl⟩, m.pc_skip _⟩
  | eq ho => exact ⟨.skipEq _ _, ⟨ho, rfl, rfl⟩, m.pc_skip _⟩
  | ne ho => exact ⟨.skipNe _ _, ⟨ho, rfl, rfl⟩, m.pc_skip _⟩
  | pressed ho => exact ⟨.skipPressed _, ⟨ho, rfl⟩, m.pc_skip _⟩
  | released ho => exact ⟨.skipReleased _, ⟨ho, rfl⟩, m.pc_skip _⟩

theorem pc_of_tests {c : Bool} (h : m.Tests op c) (he : Encodes op i) :
    (m.effect i).registers.pc = if c then m.registers.pc + 2 else m.registers.pc := by
  obtain ⟨j, hj, hpc⟩ := h.exists_encodes
  rwa [encodes_unique he hj]

/-- The program counter is moved only by jumps, calls, returns and skips. -/
theorem jumps_or_tests_of_pc_ne (he : Encodes op i)
    (h : (m.effect i).registers.pc ≠ m.registers.pc) : Jumps op ∨ ∃ c, m.Tests op c := by
  have hpc := m.pc_effect i
  cases i with
  | ret => exact .inl (.inr he)
  | jump | call | jumpOffset =>
    refine .inl (.inl ?_)
    rw [he.1]
    decide
  | skipEqByte q b => exact .inr ⟨_, .eqByte he.1⟩
  | skipNeByte q b => exact .inr ⟨_, .neByte he.1⟩
  | skipEq q r => exact .inr ⟨_, .eq he.1⟩
  | skipNe q r => exact .inr ⟨_, .ne he.1⟩
  | skipPressed q => exact .inr ⟨_, .pressed he.1⟩
  | skipReleased q => exact .inr ⟨_, .released he.1⟩
  | _ => exact absurd hpc h

/-! ## The data registers -/

theorem maySet_of_reg_ne (he : Encodes op i) {r : Byte} (h : (m.effect i).reg r ≠ m.reg r) :
    MaySet op r.low := by
  -- grouped by what is written, and then by the digits that tell the opcodes from others
  cases i with
  | loadByte | addByte | random =>
    obtain ⟨ho, rfl, -⟩ := he
    refine .result (.inl ?_) (Registers.low_eq_of_get_set_ne h)
    rw [ho]
    decide
  | copy | or | and | xor =>
    obtain ⟨ho, rfl, -⟩ := he
    refine .result (.inr (.inl ?_)) (Registers.low_eq_of_get_set_ne h)
    rw [ho]
    decide
  | readDelay =>
    obtain ⟨ho, rfl⟩ := he
    exact .result (.inr (.inr ho)) (Registers.low_eq_of_get_set_ne h)
  | add | sub | subFrom =>
    obtain ⟨ho, rfl, -⟩ := he
    refine .flagged ?_ (Registers.low_eq_of_get_setFlag_ne h)
    rw [ho]
    decide
  | shiftRight | shiftLeft =>
    obtain ⟨ho, rfl⟩ := he
    refine .flagged ?_ (Registers.low_eq_of_get_setFlag_ne h)
    rw [ho]
    decide
  | draw => exact .collision he.1 (Registers.low_eq_of_get_set_ne h)
  | loadRegisters =>
    obtain ⟨ho, rfl⟩ := he
    refine .loaded ho (Nat.le_of_lt_succ ?_)
    exact Nat.lt_of_lt_of_le (Registers.low_lt_of_get_setAll_ne h) (Memory.length_bytesFrom_le ..)
  | skipEqByte | skipNeByte | skipEq | skipNe | skipPressed | skipReleased =>
    exact absurd (m.reg_skip _ r) h
  | _ => exact absurd rfl h

/-! ## Memory -/

theorem stores_of_memory_ne (he : Encodes op i) {a : Nat} (ha : a < memorySize)
    (h : (m.effect i).memory.bytes[a] ≠ m.memory.bytes[a]) :
    m.registers.index.toNat ≤ a ∧
      (op &&& 0xF0FF = 0xF033 ∧ a ≤ m.registers.index.toNat + 2 ∨
        op &&& 0xF0FF = 0xF055 ∧ a ≤ m.registers.index.toNat + (x op).toNat) := by
  have hm := m.memory_effect i
  cases i with
  | storeDecimal q =>
    obtain ⟨ho, rfl⟩ := he
    obtain ⟨hle, hlt⟩ := Memory.covers_of_getElem_stored_ne h
    exact ⟨hle, .inl ⟨ho, Nat.le_of_lt_succ hlt⟩⟩
  | storeRegisters q =>
    obtain ⟨ho, rfl⟩ := he
    obtain ⟨hle, hlt⟩ := Memory.covers_of_getElem_stored_ne h
    have hlen := List.length_take_le ((x op).toNat + 1) m.registers.data.toList
    exact ⟨hle, .inr ⟨ho, by omega⟩⟩
  | _ => exact absurd (congrArg (fun mem => mem.bytes[a]) hm) h

/-! ## The other parts -/

theorem calls_of_stack_ne (he : Encodes op i) (h : (m.effect i).stack ≠ m.stack) :
    op &&& 0xF000 = 0x2000 ∨ op = 0x00EE := by
  have hs := m.stack_effect i
  cases i with
  | call => exact .inl he.1
  | ret => exact .inr he
  | _ => exact absurd hs h

theorem draws_of_screen_ne (he : Encodes op i) (h : (m.effect i).screen ≠ m.screen) :
    op = 0x00E0 ∨ op &&& 0xF000 = 0xD000 := by
  have hs := m.screen_effect i
  cases i with
  | clear => exact .inl he
  | draw => exact .inr he.1
  | _ => exact absurd hs h

theorem sets_of_delay_ne (he : Encodes op i) (h : (m.effect i).timers.delay ≠ m.timers.delay) :
    op &&& 0xF0FF = 0xF015 := by
  have ht := congrArg Timers.delay (m.timers_effect i)
  cases i with
  | setDelay => exact he.1
  | _ => exact absurd ht h

theorem sets_of_sound_ne (he : Encodes op i) (h : (m.effect i).timers.sound ≠ m.timers.sound) :
    op &&& 0xF0FF = 0xF018 := by
  have ht := congrArg Timers.sound (m.timers_effect i)
  cases i with
  | setSound => exact he.1
  | _ => exact absurd ht h

theorem isRandom_of_random_ne (he : Encodes op i) (h : (m.effect i).random ≠ m.random) :
    op &&& 0xF000 = 0xC000 := by
  have hr := m.random_effect i
  cases i with
  | random => exact he.1
  | _ => exact absurd hr h

theorem points_of_index_ne (he : Encodes op i)
    (h : (m.effect i).registers.index ≠ m.registers.index) :
    op &&& 0xF000 = 0xA000 ∨ op &&& 0xF0FF = 0xF01E ∨ op &&& 0xF0FF = 0xF029 := by
  have hi := m.index_effect i
  cases i with
  | setIndex => exact .inl he.1
  | addIndex => exact .inr (.inl he.1)
  | pointGlyph => exact .inr (.inr he.1)
  | _ => exact absurd hi h

theorem effect_of_inert (he : Encodes op i)
    (h : (op &&& 0xF000 = 0x0000 ∧ op ≠ 0x00E0 ∧ op ≠ 0x00EE) ∨ op &&& 0xF0FF = 0xF00A) :
    m.effect i = m := by
  rcases h with ⟨ho, hclear, hret⟩ | ho
  · rw [encodes_unique he (show Encodes op (.sys _) from ⟨ho, hclear, hret, rfl⟩)]
    rfl
  · rw [encodes_unique he (show Encodes op (.awaitKey _) from ⟨ho, rfl⟩)]
    rfl

/-- From a machine `m` to a machine `m'`, only parts have changed that an opcode owns. -/
structure Owned (op : Word) (m m' : Machine) : Prop where
  /-- FX33 owns three bytes from I on, and FX55 one for each of V0 to VX. -/
  memory : ∀ a (ha : a < memorySize), m'.memory.bytes[a] ≠ m.memory.bytes[a] →
    m.registers.index.toNat ≤ a ∧
      (op &&& 0xF0FF = 0xF033 ∧ a ≤ m.registers.index.toNat + 2 ∨
        op &&& 0xF0FF = 0xF055 ∧ a ≤ m.registers.index.toNat + (x op).toNat)
  register : ∀ r, m'.reg r ≠ m.reg r → MaySet op r.low
  index : m'.registers.index ≠ m.registers.index →
    op &&& 0xF000 = 0xA000 ∨ op &&& 0xF0FF = 0xF01E ∨ op &&& 0xF0FF = 0xF029
  pc : m'.registers.pc ≠ m.registers.pc → Jumps op ∨ ∃ c, m.Tests op c
  /-- A condition is tested on the machine as it was, and decides whether two is added. -/
  skip : ∀ c, m.Tests op c →
    m'.registers.pc = if c then m.registers.pc + 2 else m.registers.pc
  stack : m'.stack ≠ m.stack → op &&& 0xF000 = 0x2000 ∨ op = 0x00EE
  screen : m'.screen ≠ m.screen → op = 0x00E0 ∨ op &&& 0xF000 = 0xD000
  delay : m'.timers.delay ≠ m.timers.delay → op &&& 0xF0FF = 0xF015
  sound : m'.timers.sound ≠ m.timers.sound → op &&& 0xF0FF = 0xF018
  keypad : m'.keypad = m.keypad
  random : m'.random ≠ m.random → op &&& 0xF000 = 0xC000
  /-- 0NNN, but for 00E0 and 00EE, and FX0A own nothing. -/
  inert : (op &&& 0xF000 = 0x0000 ∧ op ≠ 0x00E0 ∧ op ≠ 0x00EE) ∨ op &&& 0xF0FF = 0xF00A → m' = m

/-- An opcode that is decoded and not refused changes only what it owns, on every machine. -/
theorem obey_changes_only_owned (h : obey op m = .ok flow m') : m.Owned op m' := by
  obtain ⟨i, he, -, -, rfl⟩ := obey_eq_ok_iff.mp h
  exact {
    memory := fun _ ha => stores_of_memory_ne he ha
    register := fun _ => maySet_of_reg_ne he
    index := points_of_index_ne he
    pc := jumps_or_tests_of_pc_ne he
    skip := fun _ hc => pc_of_tests hc he
    stack := calls_of_stack_ne he
    screen := draws_of_screen_ne he
    delay := sets_of_delay_ne he
    sound := sets_of_sound_ne he
    keypad := m.keypad_effect i
    random := isRandom_of_random_ne he
    inert := effect_of_inert he }

/-- Three registers are loaded from the font; the fourth is not theirs. -/
theorem obey_changes_only_owned_load :
    let m := (fresh (.ofSeed 7)).mapRegisters fun r => (r.set 3 0xAB).point 0x050
    ∃ m', obey 0xF265 m = .ok .next m' ∧ m.Owned 0xF265 m' ∧
      m'.reg 2 = 0x90 ∧ m'.reg 3 = m.reg 3 := by
  intro m
  have h : obey 0xF265 m = .ok .next (m.effect (.loadRegisters 2)) :=
    obey_of_encodes (show Encodes 0xF265 (.loadRegisters 2) from ⟨by decide, by decide⟩) m
  have hown := obey_changes_only_owned h
  refine ⟨_, h, hown, by decide +kernel, Decidable.byContradiction fun hne => ?_⟩
  cases hown.register 3 hne with
  | result ho | flagged ho | collision ho => exact absurd ho (by decide)
  | loaded _ hr => exact absurd hr (by decide)

end Machine

end Chip8
