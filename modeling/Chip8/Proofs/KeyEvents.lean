import Chip8.Proofs.StraightLine

/-!
# The keypad over a run

A key event sets the key that it is about, a reset releases all keys, and nothing else touches the
keypad. So a key is down if the latest event that it was in since the last reset was a press,
whatever the program did and whatever was refused in between, and this is what programs test.

* `Command.LastPressed`: the latest event of a key is a press.
* `isDown_perform`, `isDown_run_iff`: a key after one command, and after a run.
* `keypad_shows_last_events`: the keypad after any run, refused events, and what EX9E and EXA1 make
  of it.
-/

namespace Chip8

/-- In some commands, the latest event of a key is a press, and no reset comes after it. -/
def Command.LastPressed (key : Byte) (cs : List Command) : Prop :=
  ∃ ds rest, cs = ds ++ .setKey key true :: rest ∧ (∀ down, .setKey key down ∉ rest) ∧
    .reset ∉ rest

/-- The command decides whether a key is down: an event of the key, or a reset. -/
def Command.Settles (key : Byte) (c : Command) : Prop :=
  c = .reset ∨ ∃ down, c = .setKey key down

namespace Keypad

variable {k : Keypad} {key b : Byte}

theorem isDown_set (h : key.toNat < keyCount) (down : Bool) :
    (⟨k.keys.set key.toNat down⟩ : Keypad).isDown b =
      if key.toNat = b.low.val then down else k.isDown b := by
  simp only [isDown, Fin.getElem_fin, Vector.getElem_set]

theorem isDown_released (b : Byte) : released.isDown b = false :=
  Vector.getElem_replicate _

/-- Only the low nibble selects the key. -/
theorem isDown_and_low (k : Keypad) (b : Byte) : k.isDown (b &&& 0xF) = k.isDown b := by
  simp only [isDown, Byte.low_and_low]

theorem mem_pressed_iff_isDown {i : Fin keyCount} :
    i ∈ k.pressed ↔ k.isDown (BitVec.ofNat 8 i) = true := by
  have hi : Byte.low (BitVec.ofNat 8 i) = i := by
    refine Fin.ext ?_
    rw [Byte.val_low, BitVec.toNat_ofNat]
    omega
  simp only [mem_pressed, isDown, hi]

theorem pairwise_pressed (k : Keypad) : k.pressed.Pairwise (· < ·) :=
  (List.pairwise_lt_finRange keyCount).filter _

end Keypad

namespace Emulator

open Command

variable {e : Emulator} {c : Command} {cs : List Command} {key : Byte}

/-! ## One command -/

/-- Only key events and resets touch the keypad. -/
theorem keypad_perform_of_ne (hk : ∀ key down, c ≠ .setKey key down) (hr : c ≠ .reset) :
    (e.perform c).emulator.machine.keypad = e.machine.keypad := by
  have hstep := e.step_perform c
  generalize (e.perform c).emulator = e' at hstep ⊢
  cases hstep with
  | @execute op i =>
    rw [machine_after]
    exact e.advanced.keypad_effect i
  | record | resume => exact absurd rfl (hk _ _)
  | reset => exact absurd rfl hr
  | stay | load | halt | tickTimers | takeDrawFlag => rfl

theorem keypad_setKey (h : key.toNat < keyCount) (e : Emulator) (down : Bool) :
    (e.setKey key down).emulator.machine.keypad =
      ⟨e.machine.keypad.keys.set key.toNat down⟩ := by
  have ho := e.keyOutcome_setKey key down
  generalize e.setKey key down = r at ho ⊢
  cases ho with
  | refused hle => exact absurd h (Nat.not_lt.mpr hle)
  | recorded | resumed => rfl

/-- A key is down after a command that presses it, and after one that does not settle it if it was
down before. -/
theorem isDown_perform (hkey : key.toNat < keyCount) (e : Emulator) (c : Command) :
    (e.perform c).emulator.machine.keypad.isDown key = true ↔
      c = .setKey key true ∨ (e.machine.keypad.isDown key = true ∧ ¬ Settles key c) := by
  cases c with
  | setKey k down =>
    show (e.setKey k down).emulator.machine.keypad.isDown key = true ↔ _
    by_cases hk : k = key
    · subst hk
      rw [keypad_setKey hkey, Keypad.isDown_set hkey, if_pos (Byte.low_of_lt hkey).symm]
      simp [Settles]
    · have hother : (e.setKey k down).emulator.machine.keypad.isDown key =
          e.machine.keypad.isDown key := by
        by_cases hlt : k.toNat < keyCount
        · rw [keypad_setKey hlt, Keypad.isDown_set hlt, if_neg]
          rw [Byte.low_of_lt hkey]
          exact fun h => hk (BitVec.toNat_inj.mp h)
        · rw [setKey_of_le (Nat.not_lt.mp hlt)]
      rw [hother]
      simp [Settles, hk]
  | reset =>
    have hup : (e.perform .reset).emulator.machine.keypad.isDown key = false := by
      rw [perform, reset_eq]
      exact Keypad.isDown_released key
    simp [Settles, hup]
  | _ =>
    rw [keypad_perform_of_ne (by simp) (by simp)]
    simp [Settles]

/-! ## Runs -/

theorem since_iff_lastPressed :
    e.Since (fun _ c => c = .setKey key true) (fun _ c => Settles key c) cs ↔
      LastPressed key cs := by
  have hsettles : ∀ rest : List Command, (∀ c ∈ rest, ¬ Settles key c) ↔
      (∀ down, .setKey key down ∉ rest) ∧ .reset ∉ rest := by
    intro rest
    constructor
    · exact fun h => ⟨fun down hm => h _ hm (.inr ⟨down, rfl⟩), fun hm => h _ hm (.inl rfl)⟩
    · rintro ⟨hkey, hreset⟩ c hc (rfl | ⟨down, rfl⟩)
      · exact hreset hc
      · exact hkey down hc
  simp only [Since, never_iff_forall_mem, hsettles, LastPressed]
  constructor
  · rintro ⟨ds, c, rest, hcs, rfl, hrest⟩
    exact ⟨ds, rest, hcs, hrest⟩
  · rintro ⟨ds, rest, hcs, hrest⟩
    exact ⟨ds, _, rest, hcs, rfl, hrest⟩

/-- After a run from power-on, the keys that are down are those that were last pressed. -/
theorem isDown_run_iff (hkey : key.toNat < keyCount) (random : RandomSource) (cs : List Command) :
    ((fresh random).run cs).emulator.machine.keypad.isDown key = true ↔ LastPressed key cs := by
  have hfresh : ¬ (fresh random).machine.keypad.isDown key = true := by
    simp [fresh, Machine.fresh, Keypad.isDown_released]
  rw [flag_run_iff (fun e => e.machine.keypad.isDown key = true) (isDown_perform hkey),
    since_iff_lastPressed]
  exact or_iff_left fun h => hfresh h.1

/-- After any run from power-on, a key is down if its latest event since the last reset was a
press; the list of pressed keys has these keys in ascending order; and EX9E and EXA1 skip by the
latest event of the key that the low nibble of VX selects. An event of a key beyond the sixteenth
is refused and changes nothing. -/
theorem keypad_shows_last_events :
    (∀ (random : RandomSource) (cs : List Command),
      let e := ((fresh random).run cs).emulator
      (∀ key : Byte, key.toNat ≤ 15 →
        (e.machine.keypad.isDown key = true ↔ LastPressed key cs)) ∧
      e.machine.keypad.pressed.Pairwise (· < ·) ∧
      (∀ key : Fin 16,
        key ∈ e.machine.keypad.pressed ↔ LastPressed (BitVec.ofNat 8 key) cs) ∧
      ∀ op, e.Executes op →
        let selected := e.machine.reg (Opcode.x op) &&& 0xF
        let next := e.tick.emulator.pc.toNat
        (op &&& 0xF0FF = 0xE09E →
          (next = e.pc.toNat + 4 ↔ LastPressed selected cs) ∧
          (next = e.pc.toNat + 2 ↔ ¬ LastPressed selected cs)) ∧
        (op &&& 0xF0FF = 0xE0A1 →
          (next = e.pc.toNat + 4 ↔ ¬ LastPressed selected cs) ∧
          (next = e.pc.toNat + 2 ↔ LastPressed selected cs))) ∧
    ∀ (e : Emulator) (key : Byte) (down : Bool), 15 < key.toNat →
      (e.setKey key down).result = .error (.fault (.invalidKey key)) ∧
        (e.setKey key down).emulator = e := by
  refine ⟨fun random cs => ?_, fun e key down h => ?_⟩
  · have hdown {key : Byte} (h : key.toNat < keyCount) := isDown_run_iff h random cs
    intro e
    have hselected (b : Byte) : e.machine.keypad.isDown b = true ↔ LastPressed (b &&& 0xF) cs := by
      have hlow : (b &&& 0xF).toNat < keyCount := by
        rw [Byte.toNat_and_low]
        exact Nat.mod_lt _ (by decide)
      rw [← hdown hlow, Keypad.isDown_and_low]
    refine ⟨fun key h => hdown (Nat.lt_succ_of_le h), Keypad.pairwise_pressed _, fun key => ?_,
      fun op hx => ⟨fun ho => ?_, fun ho => ?_⟩⟩
    · rw [Keypad.mem_pressed_iff_isDown, hdown]
      rw [BitVec.toNat_ofNat]
      omega
    · rw [← hselected]
      exact hx.toNat_pc_iff_of_tests (.pressed ho)
    · have hpc := hx.toNat_pc_iff_of_tests (.released ho)
      rw [Bool.not_eq_true', Bool.not_eq_false] at hpc
      rw [← hselected, Bool.not_eq_true]
      exact hpc
  · rw [setKey_of_le h]
    exact ⟨rfl, rfl⟩

/-- Key 3 stays down over a wait, which key 5 ends, and a refused event of 0x13. EX9E skips with
0x13 in VX, which selects key 3; EXA1 skips with 5 in VX, since key 5 has been released. -/
theorem keypad_shows_last_events_after_wait :
    let cs : List Command :=
      [.load [0x60, 0x13, 0xF1, 0x0A, 0xE0, 0x9E, 0x00, 0x00, 0xE1, 0xA1], .setKey 3 true,
        .tick, .tick, .setKey 5 true, .setKey 0x13 false, .setKey 5 false]
    let e := ((fresh (.ofSeed 7)).run cs).emulator
    let f := ((fresh (.ofSeed 7)).run (cs ++ [.tick])).emulator
    LastPressed 3 cs ∧ e.machine.keypad.isDown 3 = true ∧ e.machine.keypad.pressed = [3] ∧
      e.Executes 0xE09E ∧ e.tick.emulator.pc.toNat = e.pc.toNat + 4 ∧
      f.Executes 0xE1A1 ∧ f.tick.emulator.pc.toNat = f.pc.toNat + 4 ∧
      (e.setKey 0x13 false).result = .error (.fault (.invalidKey 0x13)) := by
  intro cs e f
  have hlast : LastPressed 3 cs := ⟨[_], _, rfl, by decide, by decide⟩
  -- with their values in the terms, the kernel would run the program again to compare them
  clear_value (he : e = _) (hf : f = _) (hcs : cs = _)
  obtain ⟨hrun, hrefused⟩ := keypad_shows_last_events
  obtain ⟨hdown, -, -, hskips⟩ := hrun (.ofSeed 7) cs
  obtain ⟨-, -, hpressed, hskips'⟩ := hrun (.ofSeed 7) (cs ++ [.tick])
  rw [← he] at hdown hskips
  rw [← hf] at hpressed hskips'
  obtain ⟨h0, h1, hop, hop', hpe, hpf⟩ : e.machine.reg 0 = 0x13 ∧ f.machine.reg 1 = 5 ∧
      e.executes? .tick = some 0xE09E ∧ f.executes? .tick = some 0xE1A1 ∧
      e.machine.keypad.pressed = [3] ∧ f.machine.keypad.pressed = [3] := by
    subst he hf hcs
    decide +kernel
  have hx : e.Executes 0xE09E := (executes?_eq_some_iff.mp hop).2
  have hx' : f.Executes 0xE1A1 := (executes?_eq_some_iff.mp hop').2
  have hup : ¬ LastPressed 5 (cs ++ [.tick]) := by
    rw [show (5 : Byte) = BitVec.ofNat 8 (5 : Fin 16) from rfl, ← hpressed, hpf]
    decide
  have hskip := ((hskips _ hx).1 rfl).1
  have hskip' := ((hskips' _ hx').2 rfl).1
  refine ⟨hlast, (hdown 3 (by decide)).mpr hlast, hpe, hx, hskip.mpr ?_, hx', hskip'.mpr ?_,
    (hrefused e 0x13 false (by decide)).1⟩
  · rwa [show Opcode.x 0xE09E = 0 by decide, h0]
  · rwa [show Opcode.x 0xE1A1 = 1 by decide, h1]

end Emulator

end Chip8
