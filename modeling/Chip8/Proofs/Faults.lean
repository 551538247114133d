import Chip8.Proofs.Emulator

/-!
# When a tick fails

* `failed_is_atomic`: whatever fails leaves everything as it was, but for the run
  state of a running emulator.
* `tick_fails_iff`: the faults of a tick, with the addresses they name
  (`Emulator.TickFault`).
-/

namespace Chip8

/-- An instruction that fails changes nothing. -/
theorem Machine.eq_of_execute_eq_error {i : Instruction} {m m' : Machine} {f : Failure}
    (h : execute i m = .error f m') : m' = m := by
  rw [execute_eq] at h
  split at h
  · cases h
    rfl
  · cases h

namespace Emulator

/-- Whatever fails leaves everything as it was: a tick changes at most the run state,
from running to halted, and an instruction nothing at all. -/
theorem failed_is_atomic :
    (∀ (e : Emulator) (f : Failure), e.tick.result = .error f →
      (e.state = .running ∧ e.tick.emulator = { e with state := .halted }) ∨
      (e.state = .halted ∧ f = .fault .halted ∧ e.tick.emulator = e)) ∧
    ∀ (i : Instruction) (m m' : Machine) (f : Failure),
      Machine.execute i m = .error f m' → m' = m := by
  refine ⟨fun e f h => ?_, fun i m m' f => Machine.eq_of_execute_eq_error⟩
  rcases tick_error_cases h with ⟨g, hs, -, -, he⟩ | hh
  · exact .inl ⟨hs, he⟩
  · exact .inr hh

/-- A return without a call, as a tick and as an instruction. -/
theorem failed_is_atomic_underflow :
    let e := ((ofSeed 7).load [0x00, 0xEE]).emulator
    e.tick.result = .error (.fault .stackUnderflow) ∧
      e.tick.emulator = { e with state := .halted } ∧
      ∃ m', Machine.execute .ret e.advanced = .error (.fault .stackUnderflow) m' ∧
        m' = e.advanced := by
  intro e
  have he : e = _ := congrArg Response.emulator (load_of_le (by decide) (ofSeed 7))
  have hs : e.state = .running := by
    rw [he]
    rfl
  have hw : e.machine.memory.HoldsWord e.pc 0x00EE := by
    rw [he]
    exact Memory.holdsWord_stored (by decide)
  have hr : e.advanced.refusal .ret = some (.fault .stackUnderflow) := by
    rw [he]
    rfl
  have ht : e.tick.result = .error (.fault .stackUnderflow) := by
    rw [tick_of_refused hs (Memory.readWord_eq_ok_iff.mpr hw)
      (Instruction.decode_eq_ret_iff.mpr rfl) hr]
  have hx : Machine.execute .ret e.advanced = .error (.fault .stackUnderflow) e.advanced := by
    rw [Machine.execute_eq, hr]
  refine ⟨ht, ?_, e.advanced, hx, failed_is_atomic.2 _ _ _ _ hx⟩
  rcases failed_is_atomic.1 e _ ht with ⟨-, h⟩ | ⟨h, -⟩
  · exact h
  · exact absurd (hs.symm.trans h) nofun

end Emulator

/-! ## The faults of a tick -/

namespace Opcode

/-- The opcode reads `n` bytes at the index register: DXYN, or FX65. -/
def Reads (op : Word) (n : Nat) : Prop :=
  (op &&& 0xF000 = 0xD000 ∧ n = op.toNat % 16) ∨
    (op &&& 0xF0FF = 0xF065 ∧ n = op.toNat / 0x100 % 16 + 1)

/-- The opcode writes `n` bytes at the index register: FX33, or FX55. -/
def Writes (op : Word) (n : Nat) : Prop :=
  (op &&& 0xF0FF = 0xF033 ∧ n = 3) ∨ (op &&& 0xF0FF = 0xF055 ∧ n = op.toNat / 0x100 % 16 + 1)

end Opcode

namespace Emulator

/-- The faults of a tick of a running emulator. A sprite without rows is checked at
its start, as if it were read. -/
inductive TickFault (e : Emulator) : Fault → Prop
  /-- There is no word at the program counter. -/
  | fetch (h : 0xFFE < e.pc.toNat) :
    TickFault e (.illegalAccess (BitVec.ofNat 16 (max e.pc.toNat 0x1000)))
  /-- The opcode is in no row of the table. -/
  | decode {op : Word} (hw : e.machine.memory.HoldsWord e.pc op)
    (h : ∀ p ∈ Instruction.table, p.accepts op = false) : TickFault e (.invalidOpcode op)
  /-- The opcode is 00EE, and there is no call to return from. -/
  | ret (hw : e.machine.memory.HoldsWord e.pc 0x00EE) (h : e.machine.stack.depth = 0) :
    TickFault e .stackUnderflow
  /-- The opcode is 2NNN, and all return addresses are in use. -/
  | call {op : Word} (hw : e.machine.memory.HoldsWord e.pc op) (ho : op &&& 0xF000 = 0x2000)
    (h : e.machine.stack.depth = stackCapacity) : TickFault e .stackOverflow
  /-- The opcode is DXYN or FX65, and reads past the end of memory. -/
  | read {op : Word} {n : Nat} (hw : e.machine.memory.HoldsWord e.pc op) (ho : Opcode.Reads op n)
    (h : 0x1000 < e.machine.registers.index.toNat + n) :
    TickFault e (.illegalAccess (BitVec.ofNat 16 (max e.machine.registers.index.toNat 0x1000)))
  /-- The opcode is FX33 or FX55, and writes from outside program memory on. -/
  | writeStart {op : Word} {n : Nat} (hw : e.machine.memory.HoldsWord e.pc op)
    (ho : Opcode.Writes op n)
    (h : e.machine.registers.index.toNat < 0x200 ∨ 0x1000 ≤ e.machine.registers.index.toNat) :
    TickFault e (.illegalAccess e.machine.registers.index)
  /-- The opcode is FX33 or FX55, and writes past the end of memory. -/
  | writeEnd {op : Word} {n : Nat} (hw : e.machine.memory.HoldsWord e.pc op)
    (ho : Opcode.Writes op n)
    (h₁ : 0x200 ≤ e.machine.registers.index.toNat) (h₂ : e.machine.registers.index.toNat < 0x1000)
    (h : 0x1000 < e.machine.registers.index.toNat + n) : TickFault e (.illegalAccess 0x1000)

theorem failure_of_holdsWord {e : Emulator} {op : Word} {i : Instruction}
    (hw : e.machine.memory.HoldsWord e.pc op) (hd : Instruction.decode op = .ok i) :
    e.failure = e.advanced.refusal i := by
  rw [failure, peek_of_holdsWord hw hd]

theorem failure_of_peek_eq_error {e : Emulator} {f : Fault} (h : e.peek = .error f) :
    e.failure = some (.fault f) := by
  rw [failure, h]

theorem decode_eq_error_iff {op : Word} {f : Fault} :
    Instruction.decode op = .error f ↔
      (∀ p ∈ Instruction.table, p.accepts op = false) ∧ f = .invalidOpcode op :=
  Instruction.decodeWith_eq_error_iff

/-- A block that an opcode reads is refused if it goes past the end of memory. -/
theorem TickFault.of_readFault {e : Emulator} {op : Word} {n : Nat} {f : Fault}
    (hw : e.machine.memory.HoldsWord e.pc op) (ho : Opcode.Reads op n)
    (h : (Memory.readFault e.machine.registers.index n).map Failure.fault = some (.fault f)) :
    e.TickFault f := by
  rw [Failure.map_fault_eq_some_iff] at h
  obtain ⟨hlt, rfl⟩ := Memory.readFault_eq_some_iff.mp h
  exact .read hw ho hlt

/-- A block that an opcode writes is refused for its start or for its end. -/
theorem TickFault.of_writeFault {e : Emulator} {op : Word} {n : Nat} {f : Fault}
    (hw : e.machine.memory.HoldsWord e.pc op) (ho : Opcode.Writes op n)
    (h : (Memory.writeFault e.machine.registers.index n).map Failure.fault = some (.fault f)) :
    e.TickFault f := by
  rw [Failure.map_fault_eq_some_iff] at h
  rcases Memory.writeFault_eq_some_iff.mp h with ⟨rfl, -, hi⟩ | ⟨rfl, h₁, h₂, h₃⟩
  · exact .writeStart hw ho hi
  · exact .writeEnd hw ho h₁ h₂ h₃

/-- A cycle fails only by the faults listed. -/
theorem TickFault.of_failure {e : Emulator} {f : Fault} (h : e.failure = some (.fault f)) :
    e.TickFault f := by
  rw [failure] at h
  cases hp : e.peek with
  | error g =>
    rw [hp] at h
    cases h
    simp only [peek] at hp
    cases hw : e.machine.memory.readWord e.pc with
    | error g =>
      rw [hw] at hp
      cases hp
      obtain ⟨hlt, rfl⟩ := Memory.readWord_eq_error_iff.mp hw
      exact .fetch hlt
    | ok op =>
      rw [hw] at hp
      obtain ⟨hn, rfl⟩ := decode_eq_error_iff.mp hp
      exact .decode (Memory.readWord_eq_ok_iff.mp hw) hn
  | ok i =>
    rw [hp] at h
    obtain ⟨op, hw, hd⟩ := peek_eq_ok_iff.mp hp
    rw [Memory.readWord_eq_ok_iff] at hw
    cases i with
    | ret =>
      obtain rfl := Instruction.decode_eq_ret_iff.mp hd
      simp only [Machine.refusal] at h
      split at h
      · cases h
      · next hdepth =>
        cases h
        exact .ret hw (Nat.eq_zero_of_not_pos hdepth)
    | call a =>
      obtain ⟨ho, -⟩ := Instruction.decode_eq_call_iff.mp hd
      simp only [Machine.refusal] at h
      split at h
      · cases h
      · next hdepth =>
        cases h
        exact .call hw ho (Nat.le_antisymm e.machine.stack.depth_le (Nat.le_of_not_lt hdepth))
    | draw x y rows =>
      obtain ⟨ho, -, -, rfl⟩ := Instruction.decode_eq_draw_iff.mp hd
      exact .of_readFault hw (.inl ⟨ho, Opcode.toNat_n op⟩) h
    | loadRegisters x =>
      obtain ⟨ho, rfl⟩ := Instruction.decode_eq_loadRegisters_iff.mp hd
      exact .of_readFault hw (.inr ⟨ho, by rw [Opcode.toNat_x]⟩) h
    | storeDecimal x =>
      obtain ⟨ho, rfl⟩ := Instruction.decode_eq_storeDecimal_iff.mp hd
      exact .of_writeFault hw (.inl ⟨ho, rfl⟩) h
    | storeRegisters x =>
      obtain ⟨ho, rfl⟩ := Instruction.decode_eq_storeRegisters_iff.mp hd
      simp only [Machine.refusal] at h
      split at h
      · exact .of_writeFault hw (.inr ⟨ho, by rw [Opcode.toNat_x]⟩) h
      · cases h
    | jumpOffset a =>
      simp only [Machine.refusal] at h
      split at h <;> cases h
    | _ => cases h

theorem failure_of_reads {e : Emulator} {op : Word} {n : Nat}
    (hw : e.machine.memory.HoldsWord e.pc op) (ho : Opcode.Reads op n) :
    e.failure = (Memory.readFault e.machine.registers.index n).map .fault := by
  rcases ho with ⟨ho, rfl⟩ | ⟨ho, rfl⟩
  · rw [failure_of_holdsWord hw (Instruction.decode_eq_draw_iff.mpr ⟨ho, rfl, rfl, rfl⟩),
      Machine.refusal, Opcode.toNat_n]
    rfl
  · rw [failure_of_holdsWord hw (Instruction.decode_eq_loadRegisters_iff.mpr ⟨ho, rfl⟩),
      Machine.refusal, Opcode.toNat_x]
    rfl

theorem failure_of_writes {e : Emulator} {op : Word} {n : Nat}
    (hw : e.machine.memory.HoldsWord e.pc op) (ho : Opcode.Writes op n) :
    e.failure = (Memory.writeFault e.machine.registers.index n).map .fault := by
  rcases ho with ⟨ho, rfl⟩ | ⟨ho, rfl⟩
  · rw [failure_of_holdsWord hw (Instruction.decode_eq_storeDecimal_iff.mpr ⟨ho, rfl⟩),
      Machine.refusal]
    rfl
  · rw [failure_of_holdsWord hw (Instruction.decode_eq_storeRegisters_iff.mpr ⟨ho, rfl⟩),
      Machine.refusal, if_pos (Opcode.toNat_x_lt op), Opcode.toNat_x]
    rfl

/-- Each of the faults listed makes the cycle fail. -/
theorem TickFault.failure_eq {e : Emulator} {f : Fault} (h : e.TickFault f) :
    e.failure = some (.fault f) := by
  cases h with
  | fetch h =>
    refine failure_of_peek_eq_error ?_
    rw [peek, Memory.readWord_eq_error_iff.mpr ⟨h, rfl⟩]
    rfl
  | decode hw h =>
    refine failure_of_peek_eq_error ?_
    rw [peek, Memory.readWord_eq_ok_iff.mpr hw]
    exact decode_eq_error_iff.mpr ⟨h, rfl⟩
  | ret hw h =>
    rw [failure_of_holdsWord hw (Instruction.decode_eq_ret_iff.mpr rfl), Machine.refusal]
    exact if_neg (Nat.not_lt.mpr (Nat.le_of_eq h))
  | call hw ho h =>
    rw [failure_of_holdsWord hw (Instruction.decode_eq_call_iff.mpr ⟨ho, rfl⟩), Machine.refusal]
    exact if_neg (Nat.not_lt.mpr (Nat.le_of_eq h.symm))
  | read hw ho h =>
    rw [failure_of_reads hw ho, Failure.map_fault_eq_some_iff]
    exact Memory.readFault_eq_some_iff.mpr ⟨h, rfl⟩
  | @writeStart op n hw ho h =>
    have hn : 0 < n := by rcases ho with ⟨-, rfl⟩ | ⟨-, rfl⟩ <;> omega
    rw [failure_of_writes hw ho, Failure.map_fault_eq_some_iff]
    exact Memory.writeFault_eq_some_iff.mpr (.inl ⟨rfl, hn, h⟩)
  | writeEnd hw ho h₁ h₂ h =>
    rw [failure_of_writes hw ho, Failure.map_fault_eq_some_iff]
    exact Memory.writeFault_eq_some_iff.mpr (.inr ⟨rfl, h₁, h₂, h⟩)

theorem tick_result_eq_error_iff {e : Emulator} (hs : e.state = .running) {f : Failure} :
    e.tick.result = .error f ↔ ∃ g, f = .fault g ∧ e.TickFault g := by
  rcases tick_cases hs with ⟨g, hg, hr, -⟩ | ⟨i, hn, -, -, hr, -⟩
  · rw [hr]
    constructor
    · rintro ⟨⟩
      exact ⟨g, rfl, .of_failure hg⟩
    · rintro ⟨g', rfl, h⟩
      rw [Option.some.inj (hg.symm.trans h.failure_eq)]
  · rw [hr]
    constructor
    · nofun
    · rintro ⟨g, rfl, h⟩
      exact absurd (hn.symm.trans h.failure_eq) nofun

/-- A tick of a running emulator fails by the faults listed and by no others, and
succeeds if there is none. No tick ever complains of a ROM or of a key. -/
theorem tick_fails_iff :
    (∀ e : Emulator, e.state = .running →
      (∀ f, e.tick.result = .error f ↔ ∃ g, f = .fault g ∧ e.TickFault g) ∧
      (e.tick.result = .ok () ↔ ∀ g, ¬ e.TickFault g)) ∧
    ∀ (e : Emulator) (g : Fault), e.tick.result = .error (.fault g) →
      (∀ size limit, g ≠ .romTooLarge size limit) ∧ ∀ key, g ≠ .invalidKey key := by
  refine ⟨fun e hs => ⟨fun f => tick_result_eq_error_iff hs, ?_⟩, fun e g h => ?_⟩
  · cases hr : e.tick.result with
    | ok u =>
      refine iff_of_true rfl fun g hg => ?_
      rw [(tick_result_eq_error_iff hs).mpr ⟨g, rfl, hg⟩] at hr
      cases hr
    | error f =>
      obtain ⟨g, -, hg⟩ := (tick_result_eq_error_iff hs).mp hr
      exact iff_of_false nofun fun hn => hn g hg
  · rcases tick_error_cases h with ⟨g', -, hg, hf, -⟩ | ⟨-, hg, -⟩
    · cases hg
      cases TickFault.of_failure hf <;> exact ⟨nofun, nofun⟩
    · cases hg
      exact ⟨nofun, nofun⟩

/-- Storing three registers at the last two addresses: the third is refused. -/
theorem tick_fails_iff_store_at_end :
    let e := ((ofSeed 7).load [0xF2, 0x55]).emulator
    let e' := { e with machine := e.machine.mapRegisters (·.point 0xFFE) }
    e'.state = .running ∧ e'.tick.result = .error (.fault (.illegalAccess 0x1000)) := by
  intro e e'
  have he : e = _ := congrArg Response.emulator (load_of_le (by decide) (ofSeed 7))
  have hw : e'.machine.memory.HoldsWord e'.pc 0xF255 := by
    simp only [e', he]
    exact Memory.holdsWord_stored (by decide)
  have hs : e'.state = .running := by
    simp only [e', he]
    rfl
  refine ⟨hs, ((tick_fails_iff.1 e' hs).1 _).mpr ⟨_, rfl, ?_⟩⟩
  exact .writeEnd hw (.inr ⟨by decide, rfl⟩) (by decide) (by decide) (by decide)

end Emulator

end Chip8
