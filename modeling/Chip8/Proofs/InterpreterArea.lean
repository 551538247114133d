import Chip8.Proofs.Step

/-!
# The interpreter area

Memory below program memory is as it was at power-on, whatever programs are loaded and
whatever they do: a block is stored only where all of it lies in program memory. So
the glyphs are always there to be painted.

* `Memory.Pristine`: the interpreter area is as at power-on; `pristine_perform`: every
  command keeps it so.
* `interpreter_area_immutable`: it is so in every reachable emulator, and there the
  bytes at the index register after FX29 are the glyph of the digit in the register.
-/

namespace Chip8

namespace Memory

/-- The interpreter area is as at power-on. -/
def Pristine (m : Memory) : Prop :=
  ∀ a (ha : a < memorySize), a < 0x200 → m.bytes[a] = fresh.bytes[a]

variable {m : Memory}

/-- What a program may store lies outside the interpreter area. -/
theorem Pristine.stored (hm : m.Pristine) {a : Word} {data : List Byte}
    (h : writeFault a data.length = none) : (m.stored a data).Pristine := by
  intro i hi hlt
  have hw := writeFault_eq_none_iff.mp h
  have hout : ¬ (a.toNat ≤ i ∧ i < a.toNat + data.length) := by omega
  rw [getElem_stored_of_not_mem hi hout]
  exact hm i hi hlt

theorem length_glyph (digit : Byte) : (glyph digit).length = glyphSize := by
  have hd := (Byte.low digit).isLt
  rw [glyph, List.length_take, List.length_drop, length_font, glyphSize]
  omega

theorem getElem_glyph {digit : Byte} {k : Nat} (hk : k < (glyph digit).length) :
    (glyph digit)[k] = font.getD (5 * (Byte.low digit).val + k) 0 := by
  simp only [glyph, List.getElem_take, List.getElem_drop]
  exact List.getElem_eq_getD 0

/-- The glyphs can be read where they were put at power-on. -/
theorem Pristine.slice_glyphAddress (hm : m.Pristine) (digit : Byte) :
    m.slice (glyphAddress digit) glyphSize = .ok (glyph digit) := by
  have ha : (glyphAddress digit).toNat = 0x50 + 5 * (Byte.low digit).val := by
    rw [toNat_glyphAddress, Byte.val_low]
  have hd := (Byte.low digit).isLt
  have hfit : (glyphAddress digit).toNat + glyphSize ≤ memorySize := by
    rw [ha, glyphSize, memorySize]
    omega
  rw [slice_of_le hfit]
  refine congrArg Except.ok (List.ext_getElem ?_ fun k hk hg => ?_)
  · rw [length_bytesFrom hfit, length_glyph]
  · rw [length_glyph, glyphSize] at hg
    have hlt : (glyphAddress digit).toNat + k < 0xA0 := by omega
    rw [getElem_bytesFrom (Nat.lt_trans hlt (by decide)), hm _ _ (Nat.lt_trans hlt (by decide)),
      getElem_fresh, if_pos (by omega), getElem_glyph]
    congr 1
    omega

end Memory

/-- An instruction that is not refused leaves the interpreter area alone. -/
theorem Machine.pristine_effect {m : Machine} {i : Instruction} (hm : m.memory.Pristine)
    (h : m.refusal i = none) : (m.effect i).memory.Pristine := by
  rw [memory_effect]
  cases i with
  | storeDecimal x => exact hm.stored (Option.map_eq_none_iff.mp h)
  | storeRegisters x =>
    simp only [refusal] at h
    split at h
    · next hx =>
      refine hm.stored ?_
      rw [List.length_take, Vector.length_toList, Nat.min_eq_left hx]
      exact Option.map_eq_none_iff.mp h
    · cases h
  | _ => exact hm

namespace Emulator

theorem pristine_fresh (random : RandomSource) : (fresh random).machine.memory.Pristine := by
  show Memory.fresh.Pristine
  exact fun _ _ _ => rfl

theorem pristine_perform {e : Emulator} (he : e.machine.memory.Pristine) (c : Command) :
    (e.perform c).emulator.machine.memory.Pristine := by
  have hs := e.step_perform c
  generalize (e.perform c).emulator = e' at hs ⊢
  cases hs with
  | load h => exact he.stored (Memory.writeFault_programStart_eq_none_iff.mpr h)
  | execute _ _ hr =>
    rw [machine_after]
    exact Machine.pristine_effect he hr
  | reset => exact pristine_fresh e.machine.random
  | stay | halt | tickTimers | record | resume | takeDrawFlag => exact he

/-- In every reachable emulator the interpreter area is as at power-on, with the font
and zeros elsewhere. So FX29 points at the glyph of the low nibble of its register,
whatever the registers hold. -/
theorem interpreter_area_immutable {e : Emulator} (h : e.Reachable) :
    (∀ a (ha : a < memorySize), a < 0x200 →
      e.machine.memory.bytes[a] = Memory.fresh.bytes[a] ∧
      Memory.fresh.bytes[a] = if 0x50 ≤ a ∧ a < 0xA0 then font.getD (a - 0x50) 0 else 0) ∧
    ∀ (op : Word) (s : Registers), op &&& 0xF0FF = 0xF029 → ∃ i m,
      Instruction.decode op = .ok i ∧
      Machine.execute i { e.machine with registers := s } = .ok .next m ∧
      m.memory.slice m.registers.index 5 = .ok (glyph (s.get (Opcode.x op))) := by
  have he : e.machine.memory.Pristine :=
    h.induct (P := fun e => e.machine.memory.Pristine) pristine_fresh
      fun _ c he => pristine_perform he c
  refine ⟨fun a ha hlt => ⟨he a ha hlt, Memory.getElem_fresh ha⟩, fun op s ho => ?_⟩
  exact ⟨.pointGlyph (Opcode.x op), _, Instruction.decode_eq_pointGlyph_iff.mpr ⟨ho, rfl⟩, rfl,
    he.slice_glyphAddress _⟩

/-- A program that stores two bytes across the start of program memory and is halted,
with the first of them as it was; and the glyph of B for a register that holds 0x2B. -/
theorem interpreter_area_immutable_store_refused :
    let e := ((ofSeed 7).run [.load [0xA1, 0xFF, 0xF1, 0x55], .tick, .tick]).emulator
    let s := e.machine.registers.set 3 0x2B
    e.Reachable ∧ e.state = .halted ∧ e.machine.memory.bytes[0x1FF] = Memory.fresh.bytes[0x1FF] ∧
      ∃ i m, Instruction.decode 0xF329 = .ok i ∧
        Machine.execute i { e.machine with registers := s } = .ok .next m ∧
        m.memory.slice m.registers.index 5 = .ok [0xE0, 0x90, 0xE0, 0x90, 0xE0] := by
  intro e s
  have h : e.Reachable := ⟨.ofSeed 7, _, rfl⟩
  refine ⟨h, by decide +kernel, ((interpreter_area_immutable h).1 _ (by decide) (by decide)).1, ?_⟩
  obtain ⟨i, m, hd, hx, hg⟩ := (interpreter_area_immutable h).2 0xF329 s (by decide)
  refine ⟨i, m, hd, hx, ?_⟩
  rw [hg, Registers.get_set, if_pos (by decide)]
  rfl

end Emulator

end Chip8
