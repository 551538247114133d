import Chip8.Proofs.Step

/-!
# The addresses of a run

The program counter moves on by an instruction or by two, jumps to an address of
three digits with or without a register added, or goes back to where a call came
from. None of this leads far out of memory, and what a call stores is the address
after an instruction that was fetched.

* `CallStack.Bounded`, `Emulator.Bounded`: the bounds on the addresses held.
* `Bounded.perform`: every command keeps them.
* `addresses_stay_bounded`: so they hold of every reachable emulator, and the
  program counter never wraps around when it moves on.
-/

namespace Chip8

/-! ## Return addresses -/

/-- Every address in use comes after an instruction in memory, and every slot that
is not in use is cleared. -/
structure CallStack.Bounded (s : CallStack) : Prop where
  address : ∀ i (h : i < stackCapacity), i < s.depth →
    2 ≤ s.slots[i].toNat ∧ s.slots[i].toNat ≤ 0x1000
  unused : ∀ i (h : i < stackCapacity), s.depth ≤ i → s.slots[i] = 0

namespace CallStack

variable {s : CallStack}

theorem bounded_empty : (∅ : CallStack).Bounded where
  address _ _ h := absurd h (Nat.not_lt_zero _)
  unused := cleared_empty

theorem Bounded.enter (hs : s.Bounded) {a : Word} (h₂ : 2 ≤ a.toNat) (h : a.toNat ≤ 0x1000) :
    (s.enter a).Bounded := by
  refine ⟨?_, Cleared.enter hs.unused a⟩
  rw [CallStack.enter]
  split
  · intro i hi hd
    simp only [Vector.getElem_set] at hd ⊢
    split
    · exact ⟨h₂, h⟩
    · exact hs.address i hi (by omega)
  · exact hs.address

theorem Bounded.leave (hs : s.Bounded) : s.leave.Bounded := by
  refine ⟨?_, Cleared.leave hs.unused⟩
  rw [CallStack.leave]
  split
  · intro i hi hd
    simp only [Vector.getElem_set] at hd ⊢
    rw [if_neg (by omega)]
    exact hs.address i hi (by omega)
  · exact hs.address

theorem Bounded.top_le (hs : s.Bounded) : s.top.toNat ≤ 0x1000 := by
  have hd := s.depth_le
  rw [top]
  split
  · exact (hs.address (s.depth - 1) (by omega) (by omega)).2
  · exact Nat.zero_le _

end CallStack

/-! ## Instructions -/

namespace Machine

variable {m : Machine} {op : Word} {i : Instruction}

/-- The program counter goes farthest by a jump to 0xFFF and the 0xFF of a register. -/
theorem pc_effect_le (hs : m.stack.Bounded) (hpc : m.registers.pc.toNat ≤ 0x1000)
    (hd : Instruction.decode op = .ok i) : (m.effect i).registers.pc.toNat ≤ 0x10FE := by
  have hr := Instruction.inRange_of_decode hd
  have hk : ∀ c : Bool, (if c then m.registers.pc + 2 else m.registers.pc).toNat ≤ 0x10FE := by
    intro c
    split
    · rw [BitVec.toNat_add, show (2 : Word).toNat = 2 from rfl]
      omega
    · omega
  rw [pc_effect]
  cases i with
  | ret => exact Nat.le_trans hs.top_le (by decide)
  | jump a | call a =>
    have ha : a.toNat < 0x1000 := hr (.address a) (by simp [Instruction.operands])
    exact Nat.le_trans (Nat.le_of_lt ha) (by decide)
  | jumpOffset a =>
    have ha : a.toNat < 0x1000 := hr (.address a) (by simp [Instruction.operands])
    have hv := (m.reg 0).isLt
    simp only [BitVec.toNat_add, BitVec.toNat_setWidth]
    omega
  | _ => exact hk _

/-- A call stores the program counter, which is past the call. -/
theorem bounded_stack_effect (hs : m.stack.Bounded) (h₂ : 2 ≤ m.registers.pc.toNat)
    (h : m.registers.pc.toNat ≤ 0x1000) : (m.effect i).stack.Bounded := by
  rw [stack_effect]
  split
  · exact hs.leave
  · exact hs.enter h₂ h
  · exact hs

end Machine

/-! ## The emulator -/

namespace Emulator

/-- The bounds on the addresses of an emulator. While it waits for a key, the program
counter is past the instruction that waits. -/
structure Bounded (e : Emulator) : Prop where
  pc_le : e.pc.toNat ≤ 0x10FE
  stack : e.machine.stack.Bounded
  awaiting : ∀ r, e.state = .awaitingKey r →
    r.toNat ≤ 15 ∧ 2 ≤ e.pc.toNat ∧ e.pc.toNat ≤ 0x1000

variable {e : Emulator}

theorem toNat_pc_advanced (h : e.pc.toNat < 0xFFFE) :
    e.advanced.registers.pc.toNat = e.pc.toNat + 2 := by
  rw [show e.advanced.registers.pc = e.pc + 2 from rfl, BitVec.toNat_add,
    show (2 : Word).toNat = 2 from rfl]
  omega

/-- An instruction is fetched from inside memory. -/
theorem pc_le_of_peek_eq_ok {i : Instruction} (h : e.peek = .ok i) : e.pc.toNat ≤ 0xFFE := by
  obtain ⟨op, hw, -⟩ := peek_eq_ok_iff.mp h
  obtain ⟨hlt, -⟩ := Memory.readWord_eq_ok_iff.mp hw
  simp only [memorySize] at hlt
  omega

theorem bounded_fresh (random : RandomSource) : (fresh random).Bounded where
  pc_le := by
    show programStart.toNat ≤ 0x10FE
    decide
  stack := CallStack.bounded_empty
  awaiting _ h := nomatch h

/-- An instruction that was fetched keeps the bounds. -/
theorem Bounded.after (he : e.Bounded) {i : Instruction} (hs : e.state = .running)
    (hp : e.peek = .ok i) : (e.after i).Bounded := by
  obtain ⟨op, -, hd⟩ := peek_eq_ok_iff.mp hp
  have hlt := pc_le_of_peek_eq_ok hp
  have hpc := e.toNat_pc_advanced (by omega)
  have h₂ : 2 ≤ e.advanced.registers.pc.toNat := by omega
  have hle : e.advanced.registers.pc.toNat ≤ 0x1000 := by omega
  refine ⟨?_, ?_, fun r hr => ?_⟩
  · rw [pc_after]
    exact Machine.pc_effect_le he.stack hle hd
  · rw [machine_after]
    exact Machine.bounded_stack_effect he.stack h₂ hle
  · -- only FX0A starts to wait, and it leaves the program counter past it
    rcases e.state_after_cases i with ⟨x, rfl, hx⟩ | hsame
    · cases hx.symm.trans hr
      have hx : r.toNat < 16 :=
        Instruction.inRange_of_decode hd (.register r) (by simp [Instruction.operands])
      exact ⟨Nat.le_of_lt_succ hx, h₂, hle⟩
    · rw [hsame, hs] at hr
      cases hr

/-- Every command keeps the bounds. -/
theorem Bounded.perform (he : e.Bounded) (c : Command) : (e.perform c).emulator.Bounded := by
  have hstep := e.step_perform c
  generalize (e.perform c).emulator = e' at hstep ⊢
  cases hstep with
  | load =>
    refine ⟨he.pc_le, he.stack, fun r hr => ?_⟩
    simp only at hr
    split at hr
    · cases hr
    · exact he.awaiting r hr
  | execute hx hd => exact he.after hx.running (peek_of_holdsWord hx.fetched hd)
  | halt | resume => exact ⟨he.pc_le, he.stack, nofun⟩
  | reset => exact bounded_fresh e.machine.random
  | tickTimers | record | takeDrawFlag => exact ⟨he.pc_le, he.stack, he.awaiting⟩
  | stay => exact he

/-- Reachable emulators are within the bounds, and the program counter does not wrap
around when a cycle moves it on, nor when a skip then moves it on again. -/
theorem addresses_stay_bounded (h : e.Reachable) :
    e.Bounded ∧ e.machine.stack.depth ≤ 16 ∧
      e.machine.registers.advance.pc.toNat = e.pc.toNat + 2 ∧
      e.advanced.registers.advance.pc.toNat = e.pc.toNat + 4 := by
  have he : e.Bounded := h.induct bounded_fresh fun _ c he => he.perform c
  have hle := he.pc_le
  have h₂ := e.toNat_pc_advanced (by omega)
  refine ⟨he, e.machine.stack.depth_le, h₂, ?_⟩
  rw [show e.advanced.registers.advance.pc = e.advanced.registers.pc + 2 from rfl,
    BitVec.toNat_add, h₂, show (2 : Word).toNat = 2 from rfl]
  omega

/-- A program that calls a subroutine, which waits for a key. -/
theorem addresses_stay_bounded_call_wait :
    let e := ((ofSeed 7).run [.load [0x22, 0x02, 0xF5, 0x0A], .tick, .tick]).emulator
    e.Reachable ∧ e.Bounded ∧ e.machine.stack.depth ≤ 16 ∧
      e.machine.registers.advance.pc.toNat = e.pc.toNat + 2 ∧
      e.advanced.registers.advance.pc.toNat = e.pc.toNat + 4 := by
  intro e
  have h : e.Reachable := ⟨.ofSeed 7, _, rfl⟩
  exact ⟨h, addresses_stay_bounded h⟩

end Emulator

end Chip8
