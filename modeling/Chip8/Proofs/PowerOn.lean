import Chip8.Proofs.InterpreterArea

/-!
# The power-on state

A reset leads back to the power-on state, whatever it finds; only the random bytes go on where
they were. And an emulator is idle only in that state: a ROM that is refused, ticks, and the
timers leave it as it is, and key events change its keypad alone. So every program starts on a
machine that is as at power-on but for the program itself.

* `reset_is_power_on`: a reset emulator and a new one cannot be told apart, then or later.
* `Clean`: as at power-on; `clean_perform`: every command keeps idle emulators so.
* `idle_is_clean`: so it is in every reachable emulator that is idle, and a program that is
  started finds nothing of what came before.
-/

namespace Chip8

/-- Memory with a ROM loaded at power-on, byte by byte. -/
theorem Memory.getElem_stored_fresh (rom : List Byte) {a : Nat} (ha : a < memorySize) :
    (fresh.stored programStart rom).bytes[a] =
      if a < 0x200 then fresh.bytes[a] else rom.getD (a - 0x200) 0 := by
  have hs : programStart.toNat = 0x200 := rfl
  simp only [stored, getElem_overwrite, hs]
  by_cases hlt : a < 0x200
  · rw [if_pos hlt, dif_neg (by omega)]
  · rw [if_neg hlt]
    split
    · exact List.getElem_eq_getD 0
    · next hout =>
      rw [getElem_fresh ha, if_neg (by omega), List.getD_eq_getElem?_getD,
        List.getElem?_eq_none (by omega), Option.getD_none]

theorem Registers.get_fresh (r : Byte) : fresh.get r = 0 :=
  Vector.getElem_replicate _

namespace Emulator

variable {e : Emulator}

/-! ## Resets -/

/-- After a reset an emulator compares equal to every new one, a second reset changes nothing,
and the random bytes go on where they were. From there on, commands yield the same answers, the
same emulators and the same log as from power-on with these random bytes. -/
theorem reset_is_power_on (e : Emulator) :
    let r := e.reset.emulator
    (∀ random, r.Alike (fresh random)) ∧ r.reset.emulator = r ∧
      r.machine.random = e.machine.random ∧
      ∀ cs, r.run cs = (fresh e.machine.random).run cs := by
  intro r
  have hr : r = fresh e.machine.random := by
    show e.reset.emulator = _
    rw [reset_eq]
  clear_value r
  have hrandom : r.machine.random = e.machine.random := by rw [hr, random_fresh]
  refine ⟨fun random => ?_, ?_, hrandom, fun cs => by rw [hr]⟩
  · rw [hr]
    exact ⟨⟨rfl, rfl, rfl, rfl, rfl, rfl⟩, rfl, rfl⟩
  · rw [r.reset_eq, hrandom, hr]

/-! ## Idle emulators -/

/-- The emulator is as at power-on, but for its random bytes and its keypad. -/
def Clean (e : Emulator) : Prop :=
  ∃ random keypad, e = ⟨{ Machine.fresh random with keypad }, .idle, false⟩

theorem clean_fresh (random : RandomSource) : (fresh random).Clean :=
  ⟨random, .released, rfl⟩

/-- Commands lead from a clean emulator to one that is clean or no longer idle, and to no idle one
from any other but by a reset. -/
theorem clean_perform (he : e.state = .idle → e.Clean) (c : Command) :
    (e.perform c).emulator.state = .idle → (e.perform c).emulator.Clean := by
  have hstep := e.step_perform c
  generalize (e.perform c).emulator = e' at hstep ⊢
  intro hs
  cases hstep with
  | load =>
    -- a ROM that is loaded starts an idle emulator
    simp only at hs
    split at hs
    · cases hs
    · next hn => exact absurd hs hn
  | @execute op i hx =>
    rcases e.state_after_cases i with ⟨r, -, hr⟩ | hsame
    · exact absurd (hr.symm.trans hs) nofun
    · exact absurd (hx.running.symm.trans (hsame.symm.trans hs)) nofun
  | halt | resume => cases hs
  | tickTimers =>
    obtain ⟨random, keypad, rfl⟩ := he hs
    exact ⟨random, keypad, rfl⟩
  | record =>
    obtain ⟨random, keypad, rfl⟩ := he hs
    exact ⟨random, _, rfl⟩
  | takeDrawFlag =>
    obtain ⟨random, keypad, rfl⟩ := he hs
    exact ⟨random, keypad, rfl⟩
  | reset => exact clean_fresh e.machine.random
  | stay => exact he hs

/-- A reachable emulator that is idle is as at power-on, but for its random bytes and its
keypad. A ROM that makes it run finds program memory empty and is all there is in it
afterwards; registers, timers, the call stack and the screen are as at power-on too. -/
theorem idle_is_clean (h : e.Reachable) (hs : e.state = .idle) :
    e = ⟨{ Machine.fresh e.machine.random with keypad := e.machine.keypad }, .idle, false⟩ ∧
    ∀ rom, (e.load rom).emulator.state = .running →
      let f := (e.load rom).emulator
      f = ⟨{ Machine.fresh e.machine.random with
          memory := Memory.fresh.stored programStart rom
          keypad := e.machine.keypad }, .running, false⟩ ∧
      (∀ a (ha : a < memorySize), f.machine.memory.bytes[a] =
        if a < 0x200 then Memory.fresh.bytes[a] else rom.getD (a - 0x200) 0) ∧
      f.pc = 0x200 ∧ f.machine.registers.index = 0 ∧ (∀ r, f.machine.reg r = 0) ∧
      f.machine.timers = ⟨0, 0⟩ ∧ f.machine.stack = ∅ ∧
      ∀ x y, f.machine.screen.get x y = false := by
  have he : e.Clean := h.induct (P := fun e => e.state = .idle → e.Clean)
    (fun random _ => clean_fresh random) (fun _ c he => clean_perform he c) hs
  obtain ⟨random, keypad, rfl⟩ := he
  refine ⟨rfl, fun rom hrun => ?_⟩
  rcases Nat.lt_or_ge programCapacity rom.length with hl | hl
  · rw [load_of_lt hl] at hrun
    exact absurd (show RunState.idle = .running from hrun) nofun
  · rw [load_of_le hl, if_pos rfl]
    exact ⟨rfl, fun a ha => Memory.getElem_stored_fresh rom ha, rfl, rfl, Registers.get_fresh, rfl,
      rfl, Screen.get_blank⟩

/-- A key held down, a ROM that is too large, and ticks of both clocks, all before a program of
one jump is started. -/
theorem idle_is_clean_refused_rom :
    let e := ((ofSeed 7).run
      [.setKey 3 true, .load (List.replicate 3585 0x12), .tick, .tickTimers]).emulator
    let f := (e.load [0x12, 0x00]).emulator
    e.Reachable ∧ e.state = .idle ∧ f.state = .running ∧
      f = ⟨{ Machine.fresh e.machine.random with
          memory := Memory.fresh.stored programStart [0x12, 0x00]
          keypad := e.machine.keypad }, .running, false⟩ ∧
      f.machine.memory.bytes[0x200] = 0x12 ∧ f.machine.memory.bytes[0xFFF] = 0 ∧
      f.machine.reg 0xF = 0 ∧ f.machine.stack = ∅ ∧ f.machine.screen.get 63 31 = false := by
  intro e f
  have he : e.Reachable := ⟨.ofSeed 7, _, rfl⟩
  have hs : e.state = .idle := by decide +kernel
  have hrun : f.state = .running := by decide +kernel
  obtain ⟨-, hload⟩ := idle_is_clean he hs
  obtain ⟨hf, hmem, -, -, hreg, -, hstack, hscreen⟩ := hload [0x12, 0x00] hrun
  exact ⟨he, hs, hrun, hf, hmem _ (by decide), hmem _ (by decide), hreg 0xF, hstack, hscreen 63 31⟩

end Emulator

end Chip8
