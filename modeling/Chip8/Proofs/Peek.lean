import Chip8.Proofs.Step

/-!
# Looking ahead

Looking at the next instruction fetches and decodes it once, and the tick that runs it does so
again. Both read the same word and come to the same instruction or the same fault. So the tick is
the instruction seen, executed on the machine past it, and what it comes to decides the rest
(`Emulator.settle`).

* `tick_eq_settle`: a tick of a running emulator that has an instruction next.
* `peek_tick_of_error`: what was next before a tick that fails is next after it.
* `peek_foretells_tick`: both, and the tick of an emulator that has no instruction next.
-/

namespace Chip8.Emulator

variable {e : Emulator} {i : Instruction}

/-- The result of a tick and the emulator after it, from what its instruction comes to. The
machine of an instruction that fails is dropped. -/
def settle (e : Emulator) : EStateM.Result Failure Machine Flow → Except Failure Unit × Emulator
  | .ok .next m => (.ok (), { e with machine := m })
  | .ok .redraw m => (.ok (), { e with machine := m, drawFlag := true })
  | .ok (.awaitKey r) m => (.ok (), { e with machine := m, state := .awaitingKey r })
  | .error f _ => (.error f, { e with state := .halted })

theorem settle_execute_of_accepted (h : e.advanced.refusal i = none) :
    e.settle (Machine.execute i e.advanced) = (.ok (), e.after i) := by
  rw [Machine.execute_eq, h]
  simp only [after]
  cases i.flow <;> rfl

theorem settle_execute_of_refused {f : Failure} (h : e.advanced.refusal i = some f) :
    e.settle (Machine.execute i e.advanced) = (.error f, { e with state := .halted }) := by
  rw [Machine.execute_eq, h]
  rfl

/-- A tick executes the instruction that is next, on the machine past it. -/
theorem tick_eq_settle (hs : e.state = .running) (hp : e.peek = .ok i) :
    (e.tick.result, e.tick.emulator) = e.settle (Machine.execute i e.advanced) := by
  have ho := tickOutcome_tick hs
  generalize e.tick = t at ho ⊢
  cases ho with
  | unfetched hf => exact absurd (hf.symm.trans hp) nofun
  | refused hw hd hr =>
    cases hp.symm.trans (peek_eq_ok_iff.mpr ⟨_, hw, hd⟩)
    rw [settle_execute_of_refused hr]
  | done hw hd hr =>
    cases hp.symm.trans (peek_eq_ok_iff.mpr ⟨_, hw, hd⟩)
    rw [settle_execute_of_accepted hr]

/-- A tick that fails leaves the program counter and memory where they were. -/
theorem peek_tick_of_error {f : Failure} (h : e.tick.result = .error f) :
    f ≠ .undefined ∧ e.tick.emulator.state = .halted ∧ e.tick.emulator.peek = e.peek := by
  rcases tick_error_cases h with ⟨g, -, rfl, -, he⟩ | ⟨hs, rfl, he⟩
  · rw [he]
    exact ⟨nofun, rfl, rfl⟩
  · rw [he]
    exact ⟨nofun, hs, rfl⟩

/-- If a look at the next instruction of a running emulator fails, a tick fails with the same
fault and halts it. If it shows an instruction, a tick executes this instruction on the machine
with the program counter past it, and installs the machine that comes out; it raises the draw flag
after a drawing and waits after a wait for a key, and a failure is passed on and leaves the machine
as it was, halted. After any tick that fails the emulator is halted, and a look shows what it
showed before. -/
theorem peek_foretells_tick (e : Emulator) :
    (e.state = .running →
      (∀ f, e.peek = .error f →
        e.tick.result = .error (.fault f) ∧ e.tick.emulator = { e with state := .halted }) ∧
      ∀ i, e.peek = .ok i →
        (e.tick.result, e.tick.emulator) =
          e.settle (Machine.execute i (e.machine.mapRegisters (·.jump (e.pc + 2))))) ∧
    ∀ f, e.tick.result = .error f →
      f ≠ .undefined ∧ e.tick.emulator.state = .halted ∧ e.tick.emulator.peek = e.peek := by
  refine ⟨fun hs => ⟨fun f hf => ?_, fun i hp => tick_eq_settle hs hp⟩,
    fun f => peek_tick_of_error⟩
  rw [tick_of_peek_eq_error hs hf]
  exact ⟨rfl, rfl⟩

/-- A return without a call is seen, fails in the tick and is still seen; an opcode that is in no
row of the table is refused by the look and by the tick alike. -/
theorem peek_foretells_tick_underflow :
    let e := ((ofSeed 7).load [0x00, 0xEE]).emulator
    let e' := ((ofSeed 7).load [0xFF, 0xFF]).emulator
    e.state = .running ∧ e.peek = .ok .ret ∧
      (e.tick.result, e.tick.emulator) =
        e.settle (Machine.execute .ret (e.machine.mapRegisters (·.jump (e.pc + 2)))) ∧
      e.tick.result = .error (.fault .stackUnderflow) ∧ e.tick.emulator.peek = .ok .ret ∧
      e'.peek = .error (.invalidOpcode 0xFFFF) ∧
      e'.tick.result = .error (.fault (.invalidOpcode 0xFFFF)) := by
  intro e e'
  obtain ⟨hrun, hfail⟩ := peek_foretells_tick e
  obtain ⟨hrun', -⟩ := peek_foretells_tick e'
  obtain ⟨hs, hw⟩ := running_load_fresh (.ofSeed 7) 0x00 0xEE [] (by decide)
  obtain ⟨hs', hw'⟩ := running_load_fresh (.ofSeed 7) 0xFF 0xFF [] (by decide)
  have hp : e.peek = .ok .ret := peek_of_holdsWord hw (Instruction.decode_eq_ret_iff.mpr rfl)
  have hp' : e'.peek = .error (.invalidOpcode 0xFFFF) := peek_eq_decode hw'
  have hr : e.advanced.refusal .ret = some (.fault .stackUnderflow) := rfl
  have hsettle := (hrun hs).2 .ret hp
  have ht : e.tick.result = .error (.fault .stackUnderflow) :=
    congrArg Prod.fst (hsettle.trans (settle_execute_of_refused hr))
  exact ⟨hs, hp, hsettle, ht, (hfail _ ht).2.2.trans hp, hp',
    ((hrun' hs').1 _ hp').1⟩

end Chip8.Emulator
