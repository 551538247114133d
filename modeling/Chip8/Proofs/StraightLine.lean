import Chip8.Proofs.Addresses
import Chip8.Proofs.History
import Chip8.Proofs.Ownership

/-!
# Straight-line code

Only jumps, calls and returns lead back. Every other opcode that is executed leaves the program
counter two or four further on, and none is executed from the last address of memory or from beyond
it. So between two of these, a program has no more ticks than there are pairs of bytes from where
it is to the end of memory, whatever it writes over itself on the way.

* `Executes.toNat_pc_of_tests`, `Executes.add_two_le_pc`: the program counter after one tick.
* `pc_perform_of_executes?_eq_none`: what executes no opcode leaves it where it is.
* `length_executed_le`: so runs without jumps are short.
* `straight_line_ends`: how they end.
-/

namespace Chip8.Emulator

variable {e : Emulator} {c : Command} {cs : List Command} {op : Word}

/-! ## One command -/

theorem Executes.pc_le (h : e.Executes op) : e.pc.toNat ≤ 0xFFE := by
  obtain ⟨hlt, -⟩ := h.fetched
  simp only [memorySize] at hlt
  omega

/-- A skip leaves the program counter four further on, and an opcode that could have skipped but
did not leaves it two further on. -/
theorem Executes.toNat_pc_of_tests (h : e.Executes op) {skip : Bool}
    (ht : e.advanced.Tests op skip) :
    e.tick.emulator.pc.toNat = e.pc.toNat + if skip then 4 else 2 := by
  obtain ⟨i, hd, he⟩ := h.exists_after
  have hle := h.pc_le
  have hadv := e.toNat_pc_advanced (by omega)
  rw [he, pc_after,
    Machine.pc_of_tests ht (Instruction.decode_eq_ok_iff_encodes.mp hd)]
  cases skip with
  | false => exact hadv
  | true =>
    rw [if_pos rfl, BitVec.toNat_add, hadv, show (2 : Word).toNat = 2 from rfl, if_pos rfl]
    omega

theorem Executes.toNat_pc_iff_of_tests (h : e.Executes op) {skip : Bool}
    (ht : e.advanced.Tests op skip) :
    (e.tick.emulator.pc.toNat = e.pc.toNat + 4 ↔ skip = true) ∧
      (e.tick.emulator.pc.toNat = e.pc.toNat + 2 ↔ ¬ skip = true) := by
  rw [h.toNat_pc_of_tests ht]
  cases skip <;> simp

/-- An opcode that is not a jump leaves the program counter two further on at least. -/
theorem Executes.add_two_le_pc (h : e.Executes op) (hj : ¬ Opcode.Jumps op) :
    e.pc.toNat + 2 ≤ e.tick.emulator.pc.toNat := by
  by_cases ht : ∃ skip, e.advanced.Tests op skip
  · obtain ⟨skip, ht⟩ := ht
    rw [h.toNat_pc_of_tests ht]
    split <;> omega
  · obtain ⟨i, hd, he⟩ := h.exists_after
    have hpc : (e.advanced.effect i).registers.pc = e.advanced.registers.pc :=
      Decidable.byContradiction fun hne =>
        (Machine.jumps_or_tests_of_pc_ne (Instruction.decode_eq_ok_iff_encodes.mp hd) hne).elim hj ht
    have hle := h.pc_le
    rw [he, pc_after, hpc]
    exact Nat.le_of_eq (e.toNat_pc_advanced (by omega)).symm

/-- What executes no opcode and does not reset the machine leaves the program counter alone: the
press that ends a wait, too. -/
theorem pc_perform_of_executes?_eq_none (hc : c ≠ .reset) (h : e.executes? c = none) :
    (e.perform c).emulator.pc = e.pc := by
  have hstep := e.step_perform c
  generalize (e.perform c).emulator = e' at hstep ⊢
  cases hstep with
  | execute hx => exact absurd (h.symm.trans (executes?_eq_some_iff.mpr ⟨rfl, hx⟩)) nofun
  | reset => exact absurd rfl hc
  | stay | load | halt | tickTimers | record | resume | takeDrawFlag => rfl

/-! ## Runs -/

/-- A run without resets and jumps executes one opcode at most for each two bytes from the program
counter to the end of memory. -/
theorem length_executed_le (hr : .reset ∉ cs) (hj : e.Avoids Opcode.Jumps cs) :
    (e.executed cs).length ≤ (0x1000 - e.pc.toNat) / 2 := by
  induction cs generalizing e with
  | nil => exact Nat.zero_le _
  | cons c cs ih =>
    obtain ⟨hc, hr⟩ := not_or.mp (mt List.mem_cons.mpr hr)
    have hrest := ih hr hj.2
    rw [executed, List.length_append]
    cases hop : e.executes? c with
    | none =>
      rw [pc_perform_of_executes?_eq_none (Ne.symm hc) hop] at hrest
      rwa [Option.toList_none, List.length_nil, Nat.zero_add]
    | some op =>
      obtain ⟨rfl, hx⟩ := executes?_eq_some_iff.mp hop
      -- the tick takes two bytes of those that are left, which are two at least
      have hpc : e.pc.toNat + 2 ≤ (e.perform .tick).emulator.pc.toNat :=
        hx.add_two_le_pc (hj.1 rfl op hx)
      have hle := hx.pc_le
      rw [Option.toList_some, List.length_singleton]
      omega

/-- A run without resets that executes no 1NNN, 2NNN, BNNN or 00EE executes 2048 opcodes at most,
and one for each two bytes from the program counter to the end of memory at most. When it has come
that far, the next tick of a running emulator executes one of these four or halts it. -/
theorem straight_line_ends (e : Emulator) (cs : List Command) (hr : .reset ∉ cs)
    (hj : e.Avoids Opcode.Jumps cs) :
    (e.executed cs).length ≤ 2048 ∧ (e.executed cs).length ≤ (0x1000 - e.pc.toNat) / 2 ∧
    ((e.executed cs).length = (0x1000 - e.pc.toNat) / 2 →
      (e.run cs).emulator.state = .running →
      (∃ op, (e.run cs).emulator.Executes op ∧ Opcode.Jumps op) ∨
        (e.run cs).emulator.tick.emulator.state = .halted) := by
  have hle := length_executed_le hr hj
  refine ⟨by omega, hle, fun hlen hs => ?_⟩
  generalize hf : (e.run cs).emulator = f at hs ⊢
  rcases tick_cases hs with ⟨g, -, -, he⟩ | ⟨i, -, -, -, hok, -⟩
  · exact .inr (by rw [he])
  · obtain ⟨op, hx⟩ := exists_executes_iff.mpr ⟨hs, hok⟩
    by_cases hjump : Opcode.Jumps op
    · exact .inl ⟨op, hx, hjump⟩
    · -- with this tick, the straight-line code would be longer than it can be
      have hj' : e.Avoids Opcode.Jumps (cs ++ [.tick]) := by
        refine avoids_append.mpr ⟨hj, fun _ op' hx' => ?_, trivial⟩
        rw [hf] at hx'
        rwa [hx.unique hx']
      have hr' : .reset ∉ cs ++ [.tick] := by simpa using hr
      have hmore := length_executed_le hr' hj'
      rw [executed_append, hf, List.length_append, hlen, executed,
        executes?_eq_some_iff.mpr ⟨rfl, hx⟩] at hmore
      simp only [Option.toList_some, List.length_append, List.length_singleton] at hmore
      omega

/-- A program that writes FX0A at the odd address 0xFF9 and goes there: a wait for a key and two
words of zeros later it is at 0xFFF, and halts. -/
theorem straight_line_ends_after_wait :
    let rom : List Byte := [0x60, 0xF5, 0x61, 0x0A, 0xAF, 0xF9, 0xF1, 0x55, 0x1F, 0xF9]
    let e := ((ofSeed 7).run (.load rom :: List.replicate 5 .tick)).emulator
    let cs : List Command :=
      [.tick, .tickTimers, .tick, .setKey 3 true, .tick, .load [0x12, 0x00], .tick]
    .reset ∉ cs ∧ e.Avoids Opcode.Jumps cs ∧ e.pc = 0xFF9 ∧
      (e.executed cs).length = 3 ∧ (e.executed cs).length ≤ (0x1000 - e.pc.toNat) / 2 ∧
      (e.run cs).emulator.state = .running ∧ (e.run cs).emulator.tick.emulator.state = .halted := by
  intro rom e cs
  obtain ⟨hpc, hexecuted, hs, hbeyond⟩ : e.pc = 0xFF9 ∧
      e.executed cs = [0xF50A, 0x0000, 0x0000] ∧ (e.run cs).emulator.state = .running ∧
      0xFFE < (e.run cs).emulator.pc.toNat := by
    decide +kernel
  have hr : .reset ∉ cs := by decide
  have hj : e.Avoids Opcode.Jumps cs := by
    rw [avoids_iff, hexecuted]
    simp [Opcode.Jumps]
  obtain ⟨-, hle, hend⟩ := straight_line_ends e cs hr hj
  have hlen : (e.executed cs).length = (0x1000 - e.pc.toNat) / 2 := by
    rw [hexecuted, hpc]
    rfl
  refine ⟨hr, hj, hpc, by rw [hexecuted]; rfl, hle, hs, ?_⟩
  rcases hend hlen hs with ⟨op, hx, -⟩ | hhalted
  · exact absurd hx.pc_le (Nat.not_le.mpr hbeyond)
  · exact hhalted

end Chip8.Emulator
