import Chip8.Proofs.Step

/-!
# The run states

Four run states and eight commands, and five transitions between them
(`Emulator.Transition`). While it is idle or waits for a key, a tick does nothing; and
once halted, an emulator refuses every tick until it is reset, and what only
instructions change stays as it was.

* `state_perform_of_transition`, `transition_of_state_perform_ne`: the run state
  changes by these transitions and by nothing else.
* `halted_run`: what a run without a reset leaves of a halted emulator.
* `run_state_machine`: both, with what ticks do outside the running state.
-/

namespace Chip8

namespace Emulator

/-- The transitions of the run state, each with the command that makes it. -/
inductive Transition (e : Emulator) : RunState → Command → RunState → Prop
  /-- A ROM that is loaded starts an idle emulator. -/
  | start {rom} (h : (e.load rom).result = .ok ()) : Transition e .idle (.load rom) .running
  /-- FX0A waits for a key, to be put into register X. -/
  | await {op} (h : e.Executes op) (ho : op &&& 0xF0FF = 0xF00A) :
    Transition e .running .tick (.awaitingKey (Opcode.x op))
  /-- A tick that fails halts the emulator. -/
  | halt {f} (h : e.tick.result = .error f) : Transition e .running .tick .halted
  /-- The press of a key ends a wait. -/
  | resume {r key} (h : key.toNat ≤ 15) : Transition e (.awaitingKey r) (.setKey key true) .running
  /-- A reset makes the emulator idle. -/
  | reset {s} : Transition e s .reset .idle

variable {e : Emulator}

/-! ## The run state after a command -/

theorem state_perform_of_transition {c : Command} {s : RunState}
    (h : e.Transition e.state c s) : (e.perform c).emulator.state = s := by
  generalize hs : e.state = s₀ at h
  cases h with
  | @start rom h =>
    rcases Nat.lt_or_ge programCapacity rom.length with hl | hl
    · rw [load_of_lt hl] at h
      cases h
    · simp only [perform, load_of_le hl, Response.map, hs, ↓reduceIte]
  | @await op h ho =>
    have ht := h.emulator_tick (Instruction.decode_eq_awaitKey_iff.mpr ⟨ho, rfl⟩)
    simp only [perform, Response.map, ht]
    rfl
  | halt h =>
    rcases tick_error_cases h with ⟨g, -, -, -, he⟩ | ⟨hh, -, -⟩
    · simp only [perform, Response.map, he]
    · rw [hs] at hh
      cases hh
  | resume h => simp only [perform, Response.map, setKey_of_awaiting (Nat.lt_succ_of_le h) hs]
  | reset => rfl

theorem transition_of_state_perform_ne {c : Command}
    (h : (e.perform c).emulator.state ≠ e.state) :
    e.Transition e.state c (e.perform c).emulator.state := by
  have hstep := e.step_perform c
  generalize (e.perform c).emulator = e' at hstep h ⊢
  cases hstep with
  | @load rom hl =>
    by_cases hs : e.state = .idle
    · simp only [hs, ↓reduceIte]
      exact .start (by rw [load_of_le hl])
    · simp only [hs, ↓reduceIte, ne_eq, not_true_eq_false] at h
  | @execute op i hx hd _ =>
    rcases e.state_after_cases i with ⟨r, rfl, hr⟩ | hs
    · obtain ⟨ho, rfl⟩ := Instruction.decode_eq_awaitKey_iff.mp hd
      rw [hr, hx.running]
      exact .await hx ho
    · exact absurd hs h
  | halt hs hf =>
    rw [hs]
    exact .halt hf
  | resume hk hs =>
    rw [hs]
    exact .resume (Nat.le_of_lt_succ hk)
  | reset => exact .reset
  | stay | tickTimers | record | takeDrawFlag => exact absurd rfl h

/-! ## Halted emulators -/

/-- A halted emulator is changed, if not reset, in its memory, timers, keypad and draw
flag at most. -/
theorem halted_perform (hs : e.state = .halted) {c : Command} (hc : c ≠ .reset) :
    ∃ memory timers keypad drawFlag, (e.perform c).emulator =
      { e with machine := { e.machine with memory, timers, keypad }, drawFlag } := by
  have hstep := e.step_perform c
  generalize (e.perform c).emulator = e' at hstep ⊢
  cases hstep with
  | load =>
    rw [if_neg (by rw [hs]; nofun)]
    exact ⟨_, _, _, _, rfl⟩
  | execute hx => exact absurd (hs.symm.trans hx.running) nofun
  | halt hr => exact absurd (hs.symm.trans hr) nofun
  | resume _ hr => exact absurd (hs.symm.trans hr) nofun
  | reset => exact absurd rfl hc
  | stay | tickTimers | record | takeDrawFlag => exact ⟨_, _, _, _, rfl⟩

theorem halted_run (hs : e.state = .halted) {cs : List Command} (hcs : .reset ∉ cs) :
    ∃ memory timers keypad drawFlag, (e.run cs).emulator =
      { e with machine := { e.machine with memory, timers, keypad }, drawFlag } := by
  refine run_induct_of_mem (q := fun f => ∃ memory timers keypad drawFlag,
    f = { e with machine := { e.machine with memory, timers, keypad }, drawFlag })
    (fun c hc f hf => ?_) ⟨_, _, _, _, rfl⟩
  obtain ⟨memory, timers, keypad, drawFlag, hf⟩ := hf
  have hs' : f.state = .halted := by rw [hf, hs]
  obtain ⟨memory', timers', keypad', drawFlag', hf'⟩ :=
    halted_perform hs' fun h => hcs (h ▸ hc)
  exact ⟨memory', timers', keypad', drawFlag', by rw [hf', hf]⟩

/-- The run state changes by the transitions listed, and by each of them. A tick of an
idle emulator, or of one that waits for a key, succeeds and changes nothing. Once an
emulator is halted, at every point of a run without a reset it is still halted and
refuses ticks, and only its memory, timers, keypad and draw flag may have changed: ROMs
are loaded, timers count down and key events are recorded. -/
theorem run_state_machine :
    (∀ (e : Emulator) (c : Command),
      ((e.perform c).emulator.state ≠ e.state →
        e.Transition e.state c (e.perform c).emulator.state) ∧
      ∀ s, e.Transition e.state c s → (e.perform c).emulator.state = s) ∧
    (∀ e : Emulator, (e.state = .idle ∨ ∃ r, e.state = .awaitingKey r) →
      e.tick.result = .ok () ∧ e.tick.emulator = e) ∧
    ∀ (e : Emulator) (cs : List Command), e.state = .halted → .reset ∉ cs →
      let f := (e.run cs).emulator
      f.state = .halted ∧ f.tick.result = .error (.fault .halted) ∧ f.tick.emulator = f ∧
      (∃ memory timers keypad drawFlag,
        f = { e with machine := { e.machine with memory, timers, keypad }, drawFlag }) ∧
      (∀ rom, rom.length ≤ programCapacity →
        (f.load rom).result = .ok () ∧
        (f.load rom).emulator.machine.memory = f.machine.memory.stored programStart rom) ∧
      f.tickTimers.machine.timers = f.machine.timers.tick ∧
      ∀ key down (h : key.toNat < keyCount),
        (f.setKey key down).result = .ok () ∧
        (f.setKey key down).emulator.machine.keypad =
          ⟨f.machine.keypad.keys.set key.toNat down⟩ := by
  refine ⟨fun e c => ⟨transition_of_state_perform_ne, fun s => state_perform_of_transition⟩,
    fun e hs => ?_, fun e cs hs hcs => ?_⟩
  · have ht : e.tick = ⟨.ok (), e, []⟩ := by
      rcases hs with hs | ⟨r, hs⟩ <;> exact tick_of_paused (by rw [hs]; nofun) (by rw [hs]; nofun)
    rw [ht]
    exact ⟨rfl, rfl⟩
  · have hf := halted_run hs hcs
    have hh : (e.run cs).emulator.state = .halted := by
      obtain ⟨memory, timers, keypad, drawFlag, hf⟩ := hf
      rw [hf]
      exact hs
    refine ⟨hh, by rw [tick_of_halted hh], by rw [tick_of_halted hh], hf, fun rom hl => ?_, rfl,
      fun key down hk => ?_⟩
    · rw [load_of_le hl]
      exact ⟨rfl, rfl⟩
    · rw [setKey_of_not_awaiting hk fun _ r => by rw [hh]; nofun]
      exact ⟨rfl, rfl⟩

/-- A return without a call halts the emulator, and loading another program, counting
down, pressing a key and ticking leave it halted. -/
theorem run_state_machine_underflow :
    let e := ((ofSeed 7).load [0x00, 0xEE]).emulator
    let h := (e.perform .tick).emulator
    let f := (h.run [.load [0x60, 0x42], .tickTimers, .setKey 3 true, .tick]).emulator
    e.Transition .running .tick .halted ∧ f.state = .halted ∧
      f.tick.result = .error (.fault .halted) ∧ f.machine.registers = h.machine.registers := by
  intro e h f
  have he : e.state = .running := by decide +kernel
  have hh : h.state = .halted := by decide +kernel
  have ht := (run_state_machine.1 e .tick).1
  have hf := run_state_machine.2.2 h [.load [0x60, 0x42], .tickTimers, .setKey 3 true, .tick] hh
    (by decide)
  rw [he, show (e.perform .tick).emulator.state = .halted from hh] at ht
  obtain ⟨hf, htick, -, ⟨memory, timers, keypad, drawFlag, hm⟩, -⟩ := hf
  exact ⟨ht nofun, hf, htick, congrArg (fun e => e.machine.registers) hm⟩

end Emulator

end Chip8
