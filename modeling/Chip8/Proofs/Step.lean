import Chip8.Proofs.Emulator

/-!
# Steps and runs

What one command does to an emulator, as a relation with a constructor for each way
(`Emulator.Step`), and what is said of the emulators that a run passes through
(`Emulator.Throughout`) and of the opcodes that it executes (`Emulator.Avoids`).

* `tick_lockstep`: the ticks of two emulators that take the same course.
* `keyOutcome_setKey`: the three outcomes of a key event.
* `step_perform`: every command makes one of these steps.
* `Throughout.of_step`: what steps keep as long as a first property holds, holds
  throughout a run that has the first property.
-/

namespace Chip8.Emulator

/-! ## Ticks that execute an opcode -/

/-- A tick of the emulator executes the opcode. -/
structure Executes (e : Emulator) (op : Word) : Prop where
  running : e.state = .running
  fetched : e.machine.memory.HoldsWord e.pc op
  done : e.tick.result = .ok ()

section

variable {e : Emulator} {op : Word} {i : Instruction}

theorem Executes.of_accepted (hs : e.state = .running) (hw : e.machine.memory.HoldsWord e.pc op)
    (hd : Instruction.decode op = .ok i) (hr : e.advanced.refusal i = none) :
    e.Executes op ∧ e.tick.emulator = e.after i := by
  have ht := tick_of_done hs (Memory.readWord_eq_ok_iff.mpr hw) hd hr
  exact ⟨⟨hs, hw, by rw [ht]⟩, by rw [ht]⟩

theorem Executes.emulator_tick (h : e.Executes op) (hd : Instruction.decode op = .ok i) :
    e.tick.emulator = e.after i := by
  rcases tick_cases h.running with ⟨f, -, hf, -⟩ | ⟨j, -, hj, -, -, he⟩
  · exact absurd (h.done.symm.trans hf) nofun
  · rw [peek_of_holdsWord h.fetched hd] at hj
    cases hj
    exact he

end

/-- Two emulators in the same run state, with the same memory and the same program counter, that
refuse the same instructions: their ticks have the same result and log the same records, and lead
to emulators that are related if every way to get there relates them. -/
theorem tick_lockstep (e e' : Emulator) {R : Emulator → Emulator → Prop}
    (hs : e'.state = e.state) (hm : e'.machine.memory = e.machine.memory) (hpc : e'.pc = e.pc)
    (hr : ∀ i, e'.advanced.refusal i = e.advanced.refusal i) (stay : R e e')
    (halt : R { e with state := .halted } { e' with state := .halted })
    (after : ∀ op i, e.Executes op → Instruction.decode op = .ok i → R (e.after i) (e'.after i)) :
    e'.tick.result = e.tick.result ∧ R e.tick.emulator e'.tick.emulator ∧
      e'.tick.log = e.tick.log := by
  have hw : e'.machine.memory.readWord e'.pc = e.machine.memory.readWord e.pc := by rw [hm, hpc]
  cases hst : e.state with
  | running =>
    have ho := tickOutcome_tick hst
    generalize ht : e.tick = t at ho ⊢
    cases ho with
    | unfetched hp =>
      have hp' : e'.peek = e.peek := by rw [peek, peek, hw]
      rw [tick_of_peek_eq_error (hs.trans hst) (hp'.trans hp), hpc]
      exact ⟨rfl, halt, rfl⟩
    | refused hop hd hf =>
      rw [tick_of_refused (hs.trans hst) (hw.trans hop) hd ((hr _).trans hf), hpc]
      exact ⟨rfl, halt, rfl⟩
    | done hop hd hn =>
      rw [tick_of_done (hs.trans hst) (hw.trans hop) hd ((hr _).trans hn), hpc]
      have hx := (Executes.of_accepted hst (Memory.readWord_eq_ok_iff.mp hop) hd hn).1
      exact ⟨rfl, after _ _ hx hd, rfl⟩
  | halted =>
    rw [tick_of_halted hst, tick_of_halted (hs.trans hst)]
    exact ⟨rfl, stay, rfl⟩
  | idle | awaitingKey r =>
    have hrun : e.state ≠ .running := by simp [hst]
    have hhalt : e.state ≠ .halted := by simp [hst]
    rw [tick_of_paused hrun hhalt, tick_of_paused (hs.symm ▸ hrun) (hs.symm ▸ hhalt)]
    exact ⟨rfl, stay, rfl⟩

/-! ## Steps -/

/-- What a command may do to an emulator. -/
inductive Step (e : Emulator) : Command → Emulator → Prop
  /-- Nothing: a refused event, a tick outside the running state, or a look. -/
  | stay {c} (hc : c ≠ .reset) : Step e c e
  /-- A ROM is loaded, and starts an idle emulator. -/
  | load {rom} (h : rom.length ≤ programCapacity) :
    Step e (.load rom) ⟨{ e.machine with memory := e.machine.memory.stored programStart rom },
      if e.state = .idle then .running else e.state, e.drawFlag⟩
  | execute {op i} (h : e.Executes op) (hd : Instruction.decode op = .ok i)
    (hr : e.advanced.refusal i = none) : Step e .tick (e.after i)
  /-- A cycle fails. -/
  | halt {f} (hs : e.state = .running) (h : e.tick.result = .error f) :
    Step e .tick { e with state := .halted }
  | tickTimers : Step e .tickTimers e.tickTimers
  /-- A key event is recorded. -/
  | record {key down} (h : key.toNat < keyCount)
    (hs : down = true → ∀ r, e.state ≠ .awaitingKey r) :
    Step e (.setKey key down)
      { e with machine := { e.machine with keypad := ⟨e.machine.keypad.keys.set key.toNat down⟩ } }
  /-- A press is recorded and ends a wait. -/
  | resume {key r} (h : key.toNat < keyCount) (hs : e.state = .awaitingKey r) :
    Step e (.setKey key true)
      { e with
        machine := { e.machine with
          registers := e.machine.registers.set r key
          keypad := ⟨e.machine.keypad.keys.set key.toNat true⟩ }
        state := .running }
  | reset : Step e .reset (fresh e.machine.random)
  | takeDrawFlag : Step e .takeDrawFlag { e with drawFlag := false }

theorem step_load (e : Emulator) (rom : List Byte) : e.Step (.load rom) (e.load rom).emulator := by
  rcases Nat.lt_or_ge programCapacity rom.length with h | h
  · rw [load_of_lt h]
    exact .stay nofun
  · rw [load_of_le h]
    exact .load h

theorem step_tick (e : Emulator) : e.Step .tick e.tick.emulator := by
  by_cases hs : e.state = .running
  · rcases tick_cases hs with ⟨f, -, hf, he⟩ | ⟨i, -, hp, hr, hok, he⟩
    · rw [he]
      exact .halt hs hf
    · obtain ⟨op, hw, hd⟩ := peek_eq_ok_iff.mp hp
      rw [he]
      exact .execute ⟨hs, Memory.readWord_eq_ok_iff.mp hw, hok⟩ hd hr
  · rw [(tick_of_not_running hs).1]
    exact .stay nofun

theorem setKey_of_awaiting {e : Emulator} {key r : Byte} (h : key.toNat < keyCount)
    (hs : e.state = .awaitingKey r) :
    e.setKey key true =
      ⟨.ok (), { e with
        machine := { e.machine with
          registers := e.machine.registers.set r key
          keypad := ⟨e.machine.keypad.keys.set key.toNat true⟩ }
        state := .running }, [.keyPressed key]⟩ := by
  rw [setKey_of_lt h, hs]
  rfl

theorem setKey_of_not_awaiting {e : Emulator} {key : Byte} {down : Bool} (h : key.toNat < keyCount)
    (hs : down = true → ∀ r, e.state ≠ .awaitingKey r) :
    e.setKey key down =
      ⟨.ok (), { e with machine := { e.machine with
        keypad := ⟨e.machine.keypad.keys.set key.toNat down⟩ } }, []⟩ := by
  rw [setKey_of_lt h]
  simp only
  split
  · next hr => exact absurd hr (hs rfl _)
  · rfl

/-- The outcomes of a key event. -/
inductive KeyOutcome (e : Emulator) (key : Byte) : Bool → Response (Except Failure Unit) → Prop
  /-- The keypad does not have the key. -/
  | refused {down} (h : keyCount ≤ key.toNat) :
    KeyOutcome e key down
      ⟨.error (.fault (.invalidKey key)), e, [.keyIgnored (.invalidKey key)]⟩
  /-- The event is recorded. -/
  | recorded {down} (h : key.toNat < keyCount)
    (hs : down = true → ∀ r, e.state ≠ .awaitingKey r) :
    KeyOutcome e key down ⟨.ok (), { e with machine := { e.machine with
      keypad := ⟨e.machine.keypad.keys.set key.toNat down⟩ } }, []⟩
  /-- The event is a press that ends a wait. -/
  | resumed {r} (h : key.toNat < keyCount) (hs : e.state = .awaitingKey r) :
    KeyOutcome e key true ⟨.ok (), { e with
      machine := { e.machine with
        registers := e.machine.registers.set r key
        keypad := ⟨e.machine.keypad.keys.set key.toNat true⟩ }
      state := .running }, [.keyPressed key]⟩

theorem keyOutcome_setKey (e : Emulator) (key : Byte) (down : Bool) :
    e.KeyOutcome key down (e.setKey key down) := by
  rcases Nat.lt_or_ge key.toNat keyCount with h | h
  · by_cases hs : down = true ∧ ∃ r, e.state = .awaitingKey r
    · obtain ⟨rfl, r, hr⟩ := hs
      rw [setKey_of_awaiting h hr]
      exact .resumed h hr
    · have hn : down = true → ∀ r, e.state ≠ .awaitingKey r :=
        fun hd r hr => hs ⟨hd, r, hr⟩
      rw [setKey_of_not_awaiting h hn]
      exact .recorded h hn
  · rw [setKey_of_le h]
    exact .refused h

theorem step_setKey (e : Emulator) (key : Byte) (down : Bool) :
    e.Step (.setKey key down) (e.setKey key down).emulator := by
  have ho := e.keyOutcome_setKey key down
  generalize e.setKey key down = t at ho ⊢
  cases ho with
  | refused => exact .stay nofun
  | recorded h hs => exact .record h hs
  | resumed h hs => exact .resume h hs

theorem step_perform (e : Emulator) (c : Command) : e.Step c (e.perform c).emulator := by
  cases c with
  | load rom => exact e.step_load rom
  | tick => exact e.step_tick
  | tickTimers => exact .tickTimers
  | setKey key down => exact e.step_setKey key down
  | reset =>
    rw [perform, reset_eq]
    exact .reset
  | takeDrawFlag => exact .takeDrawFlag
  | peek | pixel x y => exact .stay nofun

/-! ## Runs -/

/-- All emulators that some commands lead through have a property, the first and the
last included. -/
def Throughout (e : Emulator) (p : Emulator → Prop) : List Command → Prop
  | [] => p e
  | c :: cs => p e ∧ (e.perform c).emulator.Throughout p cs

instance Throughout.decidable (p : Emulator → Prop) [DecidablePred p] :
    (e : Emulator) → (cs : List Command) → Decidable (e.Throughout p cs)
  | e, [] => inferInstanceAs (Decidable (p e))
  | e, c :: cs =>
    have := Throughout.decidable p (e.perform c).emulator cs
    inferInstanceAs (Decidable (p e ∧ (e.perform c).emulator.Throughout p cs))

/-- No tick of a run executes an opcode of some kind. -/
def Avoids (e : Emulator) (kind : Word → Prop) : List Command → Prop
  | [] => True
  | c :: cs =>
    (c = .tick → ∀ op, e.Executes op → ¬ kind op) ∧ (e.perform c).emulator.Avoids kind cs

variable {e : Emulator} {p q : Emulator → Prop} {cs : List Command}

theorem avoids_append {kind : Word → Prop} {ds : List Command} :
    e.Avoids kind (cs ++ ds) ↔ e.Avoids kind cs ∧ (e.run cs).emulator.Avoids kind ds := by
  induction cs generalizing e with
  | nil => exact (and_iff_right trivial).symm
  | cons c cs ih => simp only [List.cons_append, Avoids, run, ih, and_assoc]

theorem Throughout.head (h : e.Throughout p cs) : p e := by
  cases cs with
  | nil => exact h
  | cons c cs => exact h.1

theorem Throughout.last (h : e.Throughout p cs) : p (e.run cs).emulator := by
  induction cs generalizing e with
  | nil => exact h
  | cons c cs ih => exact ih h.2

/-- Where a first property holds throughout a run, so does what each command keeps
that leads to an emulator with the first property. -/
theorem Throughout.of_step (h : e.Throughout p cs)
    (step : ∀ c ∈ cs, ∀ f, q f → p (f.perform c).emulator → q (f.perform c).emulator)
    (hq : q e) : e.Throughout q cs := by
  induction cs generalizing e with
  | nil => exact hq
  | cons c cs ih =>
    -- where the command leads, the rest of the run starts, so the first property holds there
    obtain ⟨hc, hcs⟩ := List.forall_mem_cons.mp step
    exact ⟨hq, ih h.2 hcs (hc e hq h.2.head)⟩

/-- What some commands keep, every run of these commands keeps. -/
theorem run_induct_of_mem (step : ∀ c ∈ cs, ∀ f, q f → q (f.perform c).emulator) (hq : q e) :
    q (e.run cs).emulator := by
  induction cs generalizing e with
  | nil => exact hq
  | cons c cs ih =>
    obtain ⟨hc, hcs⟩ := List.forall_mem_cons.mp step
    exact ih hcs (hc e hq)

end Chip8.Emulator
