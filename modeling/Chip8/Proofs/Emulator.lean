import Chip8.Emulator.Command
import Chip8.Proofs.Decode
import Chip8.Proofs.Execute

/-!
# The operations of the emulator, case by case

What each operation answers, which emulator it leaves and what it logs, from a
condition on the emulator it finds. A tick of a running emulator fails by
`Emulator.failure` or leads to `Emulator.after` (`tick_cases`).

* `tickOutcome_tick`: the three outcomes of a tick of a running emulator.
* `Reachable.induct`: what holds at power-on and is kept by every command holds of
  every reachable emulator.
-/

namespace Chip8

/-- A decoded instruction is inside its domain. -/
theorem Machine.refusal_ne_undefined {op : Word} {i : Instruction}
    (h : Instruction.decode op = .ok i) (m : Machine) : m.refusal i ≠ some .undefined := by
  have hr := Instruction.inRange_of_decode h
  cases i with
  | jumpOffset a =>
    have ha : a.toNat < 0x1000 := hr (.address a) (by simp [Instruction.operands])
    have hv := (m.reg 0).isLt
    simp only [refusal, show a.toNat + (m.reg 0).toNat < 0x10000 by omega, ↓reduceIte]
    exact (Option.some_ne_none _).symm
  | storeRegisters x =>
    have hx : x.toNat < registerCount := hr (.register x) (by simp [Instruction.operands])
    simp only [refusal, hx, ↓reduceIte]
    exact Failure.map_fault_ne_undefined _
  | ret | call a =>
    simp only [refusal]
    split <;> simp
  | draw x y rows | storeDecimal x | loadRegisters x => exact Failure.map_fault_ne_undefined _
  | _ => exact (Option.some_ne_none _).symm

namespace Emulator

/-! ## Ticks -/

/-- The machine that the instruction at the program counter is applied to. -/
def advanced (e : Emulator) : Machine := e.machine.mapRegisters .advance

/-- Why the next cycle fails, if it does. -/
def failure (e : Emulator) : Option Failure :=
  match e.peek with
  | .error f => some (.fault f)
  | .ok i => e.advanced.refusal i

/-- The emulator after an instruction that is not refused. -/
def after (e : Emulator) (i : Instruction) : Emulator :=
  match i.flow with
  | .next => { e with machine := e.advanced.effect i }
  | .redraw => { e with machine := e.advanced.effect i, drawFlag := true }
  | .awaitKey r => { e with machine := e.advanced.effect i, state := .awaitingKey r }

theorem machine_after (e : Emulator) (i : Instruction) :
    (e.after i).machine = e.advanced.effect i := by
  simp only [after]
  split <;> rfl

theorem pc_after (e : Emulator) (i : Instruction) :
    (e.after i).pc = (e.advanced.effect i).registers.pc := by
  rw [pc, machine_after]

/-- An instruction changes the run state only if it waits for a key. -/
theorem state_after_cases (e : Emulator) (i : Instruction) :
    (∃ r, i = .awaitKey r ∧ (e.after i).state = .awaitingKey r) ∨
      (e.after i).state = e.state := by
  cases i with
  | awaitKey r => exact .inl ⟨r, rfl, rfl⟩
  | _ => exact .inr rfl

theorem peek_eq_ok_iff {e : Emulator} {i : Instruction} :
    e.peek = .ok i ↔
      ∃ op, e.machine.memory.readWord e.pc = .ok op ∧ Instruction.decode op = .ok i := by
  simp only [peek]
  cases e.machine.memory.readWord e.pc <;> simp [bind, Except.bind]

theorem peek_eq_decode {e : Emulator} {op : Word} (hw : e.machine.memory.HoldsWord e.pc op) :
    e.peek = Instruction.decode op := by
  rw [peek, Memory.readWord_eq_ok_iff.mpr hw]
  rfl

theorem peek_of_holdsWord {e : Emulator} {op : Word} {i : Instruction}
    (hw : e.machine.memory.HoldsWord e.pc op) (hd : Instruction.decode op = .ok i) :
    e.peek = .ok i :=
  (peek_eq_decode hw).trans hd

/-- A fetch or a decoding that fails is logged without an instruction. -/
theorem tick_of_peek_eq_error {e : Emulator} {f : Fault} (hs : e.state = .running)
    (h : e.peek = .error f) :
    e.tick = ⟨.error (.fault f), { e with state := .halted }, [.halting e.pc f]⟩ := by
  have hc : e.cycle = ⟨.error (.fault f), e, []⟩ := by
    simp only [peek] at h
    simp only [cycle]
    cases hw : e.machine.memory.readWord e.pc with
    | error g =>
      rw [hw] at h
      cases h
      rfl
    | ok op =>
      rw [hw] at h
      simp only [show Instruction.decode op = .error f from h]
  rw [tick, hs]
  simp only [hc]
  rfl

/-- A refused instruction leaves the program counter where it was. -/
theorem tick_of_refused {e : Emulator} {op : Word} {i : Instruction} {f : Fault}
    (hs : e.state = .running) (hw : e.machine.memory.readWord e.pc = .ok op)
    (hd : Instruction.decode op = .ok i) (h : e.advanced.refusal i = some (.fault f)) :
    e.tick = ⟨.error (.fault f), { e with state := .halted },
      [.fetched e.pc op i, .halting e.pc f]⟩ := by
  have hx : Machine.execute i (e.machine.mapRegisters .advance) = .error (.fault f) e.advanced := by
    rw [Machine.execute_eq, show (e.machine.mapRegisters .advance).refusal i = _ from h]
    rfl
  rw [tick, hs]
  simp only [cycle, hw, hd, hx]
  rfl

theorem tick_of_done {e : Emulator} {op : Word} {i : Instruction}
    (hs : e.state = .running) (hw : e.machine.memory.readWord e.pc = .ok op)
    (hd : Instruction.decode op = .ok i) (h : e.advanced.refusal i = none) :
    e.tick = ⟨.ok (), e.after i,
      .fetched e.pc op i :: match i.flow with
        | .awaitKey r => [.awaitingKey r]
        | _ => []⟩ := by
  have hx : Machine.execute i (e.machine.mapRegisters .advance) =
      .ok i.flow (e.advanced.effect i) := by
    rw [Machine.execute_eq, show (e.machine.mapRegisters .advance).refusal i = _ from h]
    rfl
  rw [tick, hs]
  simp only [cycle, hw, hd, hx, after]
  cases i.flow <;> rfl

theorem tick_of_halted {e : Emulator} (hs : e.state = .halted) :
    e.tick = ⟨.error (.fault .halted), e, []⟩ := by
  rw [tick, hs]

theorem tick_of_paused {e : Emulator} (hr : e.state ≠ .running) (hh : e.state ≠ .halted) :
    e.tick = ⟨.ok (), e, []⟩ := by
  unfold tick
  split <;> simp_all

/-- The outcomes of a tick of a running emulator. -/
inductive TickOutcome (e : Emulator) : Response (Except Failure Unit) → Prop
  /-- There is no instruction at the program counter. -/
  | unfetched {f} (hp : e.peek = .error f) :
    TickOutcome e ⟨.error (.fault f), { e with state := .halted }, [.halting e.pc f]⟩
  /-- The instruction is refused. -/
  | refused {op i f} (hw : e.machine.memory.readWord e.pc = .ok op)
    (hd : Instruction.decode op = .ok i) (hr : e.advanced.refusal i = some (.fault f)) :
    TickOutcome e ⟨.error (.fault f), { e with state := .halted },
      [.fetched e.pc op i, .halting e.pc f]⟩
  /-- The instruction is carried out. -/
  | done {op i} (hw : e.machine.memory.readWord e.pc = .ok op)
    (hd : Instruction.decode op = .ok i) (hr : e.advanced.refusal i = none) :
    TickOutcome e ⟨.ok (), e.after i,
      .fetched e.pc op i :: match i.flow with
        | .awaitKey r => [.awaitingKey r]
        | _ => []⟩

theorem tickOutcome_tick {e : Emulator} (hs : e.state = .running) : e.TickOutcome e.tick := by
  cases hp : e.peek with
  | error f =>
    rw [tick_of_peek_eq_error hs hp]
    exact .unfetched hp
  | ok i =>
    obtain ⟨op, hw, hd⟩ := peek_eq_ok_iff.mp hp
    cases hr : e.advanced.refusal i with
    | none =>
      rw [tick_of_done hs hw hd hr]
      exact .done hw hd hr
    | some f =>
      cases f with
      | undefined => exact absurd hr (Machine.refusal_ne_undefined hd _)
      | fault f =>
        rw [tick_of_refused hs hw hd hr]
        exact .refused hw hd hr

/-- What a tick of a running emulator does. -/
theorem tick_cases {e : Emulator} (hs : e.state = .running) :
    (∃ f, e.failure = some (.fault f) ∧ e.tick.result = .error (.fault f) ∧
      e.tick.emulator = { e with state := .halted }) ∨
    (∃ i, e.failure = none ∧ e.peek = .ok i ∧ e.advanced.refusal i = none ∧
      e.tick.result = .ok () ∧ e.tick.emulator = e.after i) := by
  have ho := tickOutcome_tick hs
  generalize e.tick = t at ho ⊢
  cases ho with
  | @unfetched f hp => exact .inl ⟨f, by rw [failure, hp], rfl, rfl⟩
  | @refused op i f hw hd hr =>
    have hp := peek_eq_ok_iff.mpr ⟨op, hw, hd⟩
    exact .inl ⟨f, by rw [failure, hp]; exact hr, rfl, rfl⟩
  | @done op i hw hd hr =>
    have hp := peek_eq_ok_iff.mpr ⟨op, hw, hd⟩
    exact .inr ⟨i, by rw [failure, hp]; exact hr, hp, hr, rfl, rfl⟩

/-- A tick fails in a cycle of a running emulator, or because the emulator is halted. -/
theorem tick_error_cases {e : Emulator} {f : Failure} (h : e.tick.result = .error f) :
    (∃ g, e.state = .running ∧ f = .fault g ∧ e.failure = some (.fault g) ∧
      e.tick.emulator = { e with state := .halted }) ∨
    (e.state = .halted ∧ f = .fault .halted ∧ e.tick.emulator = e) := by
  cases hs : e.state with
  | running =>
    rcases tick_cases hs with ⟨g, hg, hr, he⟩ | ⟨i, -, -, -, hr, -⟩
    · rw [hr] at h
      cases h
      exact .inl ⟨g, rfl, rfl, hg, he⟩
    · rw [hr] at h
      cases h
  | halted =>
    rw [tick_of_halted hs] at h ⊢
    cases h
    exact .inr ⟨rfl, rfl, rfl⟩
  | idle | awaitingKey r =>
    rw [tick_of_paused (by rw [hs]; nofun) (by rw [hs]; nofun)] at h
    cases h

/-! ## Loading and key events -/

theorem load_of_le {rom : List Byte} (h : rom.length ≤ programCapacity) (e : Emulator) :
    e.load rom =
      ⟨.ok (), ⟨{ e.machine with memory := e.machine.memory.stored programStart rom },
        if e.state = .idle then .running else e.state, e.drawFlag⟩, [.loaded rom.length]⟩ := by
  simp only [load, Machine.onMemory, Action.onPart, Memory.loadRom_eq, h, ↓reduceIte]

theorem load_of_lt {rom : List Byte} (h : programCapacity < rom.length) (e : Emulator) :
    e.load rom = ⟨.error (.fault (.romTooLarge rom.length programCapacity)), e, []⟩ := by
  simp only [load, Machine.onMemory, Action.onPart, Memory.loadRom_eq, Nat.not_le.mpr h,
    ↓reduceIte]

/-- A program that is loaded at power-on runs, with its first word next. -/
theorem running_load_fresh (random : RandomSource) (hi lo : Byte) (rom : List Byte)
    (h : rom.length + 2 ≤ programCapacity) :
    let e := ((fresh random).load (hi :: lo :: rom)).emulator
    e.state = .running ∧ e.machine.memory.HoldsWord e.pc (Word.ofBytes hi lo) := by
  rw [load_of_le (show (hi :: lo :: rom).length ≤ programCapacity from h)]
  exact ⟨rfl, Memory.holdsWord_stored (by decide)⟩

/-- A key event is recorded; a press also ends a wait. -/
theorem setKey_of_lt {key : Byte} (h : key.toNat < keyCount) (down : Bool) (e : Emulator) :
    e.setKey key down =
      let m := { e.machine with keypad := ⟨e.machine.keypad.keys.set key.toNat down⟩ }
      match down, e.state with
      | true, .awaitingKey r =>
        ⟨.ok (), { e with machine := m.mapRegisters (·.set r key), state := .running },
          [.keyPressed key]⟩
      | _, _ => ⟨.ok (), { e with machine := m }, []⟩ := by
  have hk : e.machine.onKeypad (Keypad.record key down) =
      .ok () { e.machine with keypad := ⟨e.machine.keypad.keys.set key.toNat down⟩ } := by
    simp only [Machine.onKeypad, Action.onPart, Keypad.record, h, ↓reduceDIte]
  cases down <;> cases hs : e.state <;> simp only [setKey, hk, hs]

theorem setKey_of_le {key : Byte} (h : keyCount ≤ key.toNat) (down : Bool) (e : Emulator) :
    e.setKey key down = ⟨.error (.fault (.invalidKey key)), e,
      [.keyIgnored (.invalidKey key)]⟩ := by
  simp only [setKey, Machine.onKeypad, Action.onPart, Keypad.record, Nat.not_lt.mpr h,
    ↓reduceDIte]

/-- A reset leads to power-on, with the random bytes still to come. -/
theorem reset_eq (e : Emulator) : e.reset = ⟨(), fresh e.machine.random, [.machineReset]⟩ := by
  rw [reset, e.machine.reset_eq_fresh]
  rfl

theorem random_fresh (random : RandomSource) : (fresh random).machine.random = random := rfl

/-! ## Runs -/

/-- What every command keeps, every run keeps. -/
theorem run_induct {P : Emulator → Prop} (perform : ∀ e c, P e → P (e.perform c).emulator)
    {e : Emulator} (h : P e) (cs : List Command) : P (e.run cs).emulator := by
  induction cs generalizing e with
  | nil => exact h
  | cons c cs ih => exact ih (perform e c h)

/-- What holds at power-on and is kept by every command holds of every reachable
emulator. -/
theorem Reachable.induct {P : Emulator → Prop} (fresh : ∀ random, P (.fresh random))
    (perform : ∀ e c, P e → P (e.perform c).emulator) {e : Emulator} (h : e.Reachable) : P e := by
  obtain ⟨random, cs, rfl⟩ := h
  exact run_induct perform (fresh random) cs

end Emulator

end Chip8
