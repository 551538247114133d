import Chip8.Proofs.RunStates

/-!
# Waiting for a key

FX0A suspends the program until a key is pressed. Neither ticks nor releases nor refused
key events end the wait or change what it waits with; the first press does, and is the
only one that reaches a register. A press that came before the wait does not count, and
one that comes after it is only recorded.

* `executes_awaitKey`, `waiting_run`, `registers_setKey`, `running_run`: the tick that
  starts the wait, the wait, the presses after it, and the program after it.
* `key_wait`: the wait from the tick that starts it to the tick after it.
-/

namespace Chip8

/-- The command leaves a wait for a key as it is: a tick of one of the clocks, a release,
or an event of a key that the keypad does not have. -/
def Command.KeepsWait : Command → Prop
  | .tick | .tickTimers => True
  | .setKey key down => down = false ∨ 15 < key.toNat
  | _ => False

namespace Emulator

variable {e : Emulator} {op : Word} {r : Byte} {cs : List Command}

/-- The tick of FX0A suspends the program and points past the instruction. -/
theorem executes_awaitKey (hs : e.state = .running) (hw : e.machine.memory.HoldsWord e.pc op)
    (ho : op &&& 0xF0FF = 0xF00A) :
    e.Executes op ∧ e.tick.emulator =
      { e with
        machine := e.machine.mapRegisters (·.jump (e.pc + 2))
        state := .awaitingKey (Opcode.x op) } :=
  Executes.of_accepted hs hw (Instruction.decode_eq_awaitKey_iff.mpr ⟨ho, rfl⟩) rfl

/-! ## The wait -/

theorem waiting_perform (hs : e.state = .awaitingKey r) {c : Command} (hc : c.KeepsWait) :
    ∃ timers keypad, (e.perform c).emulator =
      { e with machine := { e.machine with timers, keypad } } := by
  have hstep := e.step_perform c
  generalize (e.perform c).emulator = e' at hstep ⊢
  cases hstep with
  | execute hx => exact absurd (hs.symm.trans hx.running) nofun
  | halt hr => exact absurd (hs.symm.trans hr) nofun
  | resume hk =>
    rcases hc with hc | hc
    · cases hc
    · exact absurd hk (Nat.not_lt.mpr hc)
  | load | reset | takeDrawFlag => exact hc.elim
  | stay | tickTimers | record => exact ⟨_, _, rfl⟩

/-- A wait may change the timers and the keypad, and nothing else. -/
theorem waiting_run (hs : e.state = .awaitingKey r) (hcs : ∀ c ∈ cs, c.KeepsWait) :
    ∃ timers keypad, (e.run cs).emulator =
      { e with machine := { e.machine with timers, keypad } } := by
  refine run_induct_of_mem
    (q := fun f => ∃ timers keypad, f = { e with machine := { e.machine with timers, keypad } })
    (fun c hc f hf => ?_) ⟨_, _, rfl⟩
  obtain ⟨timers, keypad, hf⟩ := hf
  have hs' : f.state = .awaitingKey r := by rw [hf, hs]
  obtain ⟨timers', keypad', hf'⟩ := waiting_perform hs' (hcs c hc)
  exact ⟨timers', keypad', by rw [hf', hf]⟩

/-! ## After the wait -/

/-- No command but a tick that executes FX0A starts a wait. -/
theorem not_awaiting_perform (hs : ∀ r, e.state ≠ .awaitingKey r) {c : Command}
    (hc : c = .tick → ∀ op, e.Executes op → ¬ op &&& 0xF0FF = 0xF00A) :
    ∀ r, (e.perform c).emulator.state ≠ .awaitingKey r := by
  intro r hr
  have ht := transition_of_state_perform_ne (e := e) (c := c) (by rw [hr]; exact (hs r).symm)
  rw [hr] at ht
  generalize e.state = s at ht
  cases ht with
  | await hx ho => exact hc rfl _ hx ho

theorem not_awaiting_run (hs : ∀ r, e.state ≠ .awaitingKey r)
    (hcs : e.Avoids (fun op => op &&& 0xF0FF = 0xF00A) cs) :
    ∀ r, (e.run cs).emulator.state ≠ .awaitingKey r := by
  induction cs generalizing e with
  | nil => exact hs
  | cons c cs ih => exact ih (not_awaiting_perform hs hcs.1) hcs.2

theorem registers_setKey (hs : ∀ r, e.state ≠ .awaitingKey r) (key : Byte) (down : Bool) :
    (e.setKey key down).emulator.machine.registers = e.machine.registers := by
  rcases Nat.lt_or_ge key.toNat keyCount with h | h
  · rw [setKey_of_not_awaiting h fun _ => hs]
  · rw [setKey_of_le h]

/-- Between two ticks, a program that runs keeps running with the same registers, if it
is not reset. -/
theorem running_run (hs : e.state = .running) (ht : .tick ∉ cs) (hr : .reset ∉ cs) :
    (e.run cs).emulator.state = .running ∧
      (e.run cs).emulator.machine.registers = e.machine.registers := by
  refine run_induct_of_mem
    (q := fun f => f.state = .running ∧ f.machine.registers = e.machine.registers)
    (fun c hc f ⟨hs, hf⟩ => ?_) ⟨hs, rfl⟩
  have hstep := f.step_perform c
  generalize (f.perform c).emulator = f' at hstep ⊢
  cases hstep with
  | load =>
    rw [if_neg (by rw [hs]; nofun)]
    exact ⟨hs, hf⟩
  | execute | halt => exact absurd hc ht
  | resume _ hk => exact absurd (hs.symm.trans hk) nofun
  | reset => exact absurd hc hr
  | stay | tickTimers | record | takeDrawFlag => exact ⟨hs, hf⟩

theorem head?_log_tick {i : Instruction} (hs : e.state = .running)
    (hw : e.machine.memory.HoldsWord e.pc op) (hd : Instruction.decode op = .ok i) :
    e.tick.log.head? = some (.fetched e.pc op i) := by
  have hword := Memory.readWord_eq_ok_iff.mpr hw
  have ho := tickOutcome_tick hs
  generalize e.tick = t at ho ⊢
  cases ho with
  | unfetched hp => exact absurd (hp.symm.trans (peek_of_holdsWord hw hd)) nofun
  | refused hw' hd' | done hw' hd' =>
    cases hword.symm.trans hw'
    cases hd.symm.trans hd'
    rfl

/-- FX0A suspends a program that runs, past the instruction and with nothing else
changed. Ticks, releases and refused key events leave it suspended and change the timers
and the keypad at most. The first press of a key is recorded, goes to register X and
resumes the program. Later presses reach no register before the next FX0A is executed,
and the next tick fetches the instruction after FX0A. -/
theorem key_wait (hs : e.state = .running) (hw : e.machine.memory.HoldsWord e.pc op)
    (ho : op &&& 0xF0FF = 0xF00A) :
    let w := e.tick.emulator
    e.tick.result = .ok () ∧
    w = { e with
      machine := e.machine.mapRegisters (·.jump (e.pc + 2))
      state := .awaitingKey (Opcode.x op) } ∧
    ∀ cs : List Command, (∀ c ∈ cs, c.KeepsWait) →
      let f := (w.run cs).emulator
      f.state = .awaitingKey (Opcode.x op) ∧
      (∃ timers keypad, f = { w with machine := { w.machine with timers, keypad } }) ∧
      ∀ key (hk : key.toNat < keyCount),
        let g := (f.setKey key true).emulator
        (f.setKey key true).result = .ok () ∧
        g = { f with
          machine := { f.machine with
            registers := f.machine.registers.set (Opcode.x op) key
            keypad := ⟨f.machine.keypad.keys.set key.toNat true⟩ }
          state := .running } ∧
        (∀ ds : List Command, g.Avoids (fun op => op &&& 0xF0FF = 0xF00A) ds →
          ∀ key' down, ((g.run ds).emulator.setKey key' down).emulator.machine.registers =
            (g.run ds).emulator.machine.registers) ∧
        ∀ ds : List Command, .tick ∉ ds → .reset ∉ ds →
          let h := (g.run ds).emulator
          h.state = .running ∧ h.pc = e.pc + 2 ∧
          ∀ op' i, h.machine.memory.HoldsWord (e.pc + 2) op' → Instruction.decode op' = .ok i →
            h.tick.log.head? = some (.fetched (e.pc + 2) op' i) := by
  intro w
  obtain ⟨hx, hwait⟩ := executes_awaitKey hs hw ho
  refine ⟨hx.done, hwait, fun cs hcs => ?_⟩
  -- the wait, in which the state and the program counter stay as FX0A left them
  have hws : w.state = .awaitingKey (Opcode.x op) := congrArg Emulator.state hwait
  have hf := waiting_run hws hcs
  intro f
  obtain ⟨timers, keypad, hf'⟩ := id hf
  have hfs : f.state = .awaitingKey (Opcode.x op) := (congrArg Emulator.state hf').trans hws
  have hfpc : f.pc = e.pc + 2 :=
    (congrArg Emulator.pc hf').trans (congrArg Emulator.pc hwait)
  refine ⟨hfs, hf, fun key hk => ?_⟩
  -- the press, from which on there is no wait until the next FX0A
  have hset := setKey_of_awaiting hk hfs
  intro g
  have hg : g = _ := congrArg Response.emulator hset
  have hgs : g.state = .running := congrArg Emulator.state hg
  have hgpc : g.pc = e.pc + 2 := (congrArg Emulator.pc hg).trans hfpc
  refine ⟨congrArg Response.result hset, hg, fun ds hds key' down => ?_, fun ds ht hr => ?_⟩
  · have hn : ∀ r, g.state ≠ .awaitingKey r := fun r h => absurd (hgs.symm.trans h) nofun
    exact registers_setKey (not_awaiting_run hn hds) key' down
  · obtain ⟨hrun, hregs⟩ := running_run hgs ht hr
    have hpc : (g.run ds).emulator.pc = e.pc + 2 := (congrArg Registers.pc hregs).trans hgpc
    refine ⟨hrun, hpc, fun op' i hw' hd => ?_⟩
    rw [← hpc] at hw' ⊢
    exact head?_log_tick hrun hw' hd

/-- A wait with a tick, a timer tick, a release and a key that does not exist, ended by
key B; key 2 comes too late. -/
theorem key_wait_key_B :
    let e := ((ofSeed 7).load [0xF5, 0x0A, 0x66, 0x01]).emulator
    let cs : List Command := [.tick, .tickTimers, .setKey 0xB false, .setKey 0x10 true]
    let f := (e.tick.emulator.run cs).emulator
    let g := (f.setKey 0xB true).emulator
    e.tick.result = .ok () ∧ f.state = .awaitingKey 5 ∧ g.state = .running ∧
      g.machine.registers.get 5 = 0xB ∧
      (g.setKey 2 true).emulator.machine.registers = g.machine.registers ∧
      (g.run [.setKey 2 true]).emulator.pc = 0x202 := by
  intro e cs f g
  have hl : e = _ := congrArg Response.emulator (load_of_le (by decide) (ofSeed 7))
  have hs : e.state = .running := by rw [hl]; rfl
  have hpc : e.pc = 0x200 := by rw [hl]; rfl
  have hw : e.machine.memory.HoldsWord e.pc 0xF50A := by
    rw [hl]
    exact Memory.holdsWord_stored (by decide)
  obtain ⟨hok, -, hwait⟩ := key_wait hs hw (by decide)
  obtain ⟨hf, -, hpress⟩ := hwait cs (by simp [cs, Command.KeepsWait])
  obtain ⟨-, hg, hlate, hnext⟩ := hpress 0xB (by decide)
  obtain ⟨-, hpc', -⟩ := hnext [.setKey 2 true] (by decide) (by decide)
  refine ⟨hok, hf, congrArg Emulator.state hg, ?_, hlate [] trivial 2 true, by rw [hpc', hpc]; rfl⟩
  rw [show g.machine.registers = _ from congrArg (fun e => e.machine.registers) hg,
    Registers.get_set, if_pos (by decide)]

end Emulator

end Chip8
