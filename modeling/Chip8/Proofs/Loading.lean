import Chip8.Proofs.Emulator

/-!
# Loading a ROM

A ROM is refused for its size, before anything is written. The ROMs within the limit are just those
that go wholly to program memory, so the bytes of a ROM that is not refused are all written. And a
load touches nothing but these bytes, except that it starts an idle emulator. So a ROM is loaded
completely or not at all, whatever the emulator is doing.

* `Emulator.Loaded`: what a load makes of an emulator, part by part.
* `load_all_or_nothing`: every load makes this of it, or leaves it as it was.
-/

namespace Chip8

namespace Memory

variable {m : Memory} {rom : List Byte}

/-- A program can write just as much from the start of program memory on as a ROM may hold. -/
theorem checkWritable_programStart_eq_ok_iff {n : Nat} :
    checkWritable programStart n = .ok () ↔ n ≤ programCapacity := by
  rw [checkWritable_eq_ok_iff_writeFault, writeFault_programStart_eq_none_iff]

/-- Byte `k` of a ROM that fits is at 0x200 + k. -/
theorem getElem_stored_programStart (h : rom.length ≤ programCapacity) {k : Nat}
    (hk : k < rom.length) :
    ∃ ha : 0x200 + k < memorySize, (m.stored programStart rom).bytes[0x200 + k] = rom[k] := by
  have ha : 0x200 + k < memorySize :=
    Nat.add_lt_add_left (Nat.lt_of_lt_of_le hk h) 0x200
  exact ⟨ha, getElem_stored_add (a := programStart) hk ha⟩

end Memory

namespace Emulator

variable {e : Emulator} {rom : List Byte}

/-- From an emulator `e` to an emulator `f`, a ROM was loaded, and nothing else was done. -/
structure Loaded (rom : List Byte) (e f : Emulator) : Prop where
  bytes : ∀ k (hk : k < rom.length),
    ∃ ha : 0x200 + k < memorySize, f.machine.memory.bytes[0x200 + k] = rom[k]
  /-- The bytes before and after the ROM stay. -/
  rest : ∀ a (ha : a < memorySize), a < 0x200 ∨ 0x200 + rom.length ≤ a →
    f.machine.memory.bytes[a] = e.machine.memory.bytes[a]
  /-- Registers, call stack, screen, timers, keypad and random bytes stay. -/
  machine : f.machine = { e.machine with memory := f.machine.memory }
  state : f.state = if e.state = .idle then .running else e.state
  drawFlag : f.drawFlag = e.drawFlag

theorem loaded_load (h : rom.length ≤ programCapacity) (e : Emulator) :
    e.Loaded rom (e.load rom).emulator := by
  rw [load_of_le h]
  exact {
    bytes := fun k hk => Memory.getElem_stored_programStart h hk
    rest := fun a ha hout => Memory.getElem_stored_of_not_mem ha (by
      rw [show programStart.toNat = 0x200 from rfl]
      omega)
    machine := rfl
    state := rfl
    drawFlag := rfl }

/-- A ROM is loaded if and only if it has at most 3584 bytes, which are as many as a program can
write from 0x200 on. It is then in memory from 0x200 on, with everything else as it was but for an
idle emulator that runs now. A larger ROM is refused with its size and the limit, and changes
nothing at all. -/
theorem load_all_or_nothing (e : Emulator) (rom : List Byte) :
    ((e.load rom).result = .ok () ↔ rom.length ≤ 3584) ∧
    (Memory.checkWritable programStart rom.length = .ok () ↔ rom.length ≤ 3584) ∧
    ((rom.length ≤ 3584 ∧ e.Loaded rom (e.load rom).emulator) ∨
      (3584 < rom.length ∧ (e.load rom).emulator = e ∧
        (e.load rom).result = .error (.fault (.romTooLarge rom.length 3584)))) := by
  refine ⟨?_, Memory.checkWritable_programStart_eq_ok_iff, ?_⟩
  · rcases Nat.lt_or_ge programCapacity rom.length with h | h
    · rw [load_of_lt h]
      exact iff_of_false nofun (Nat.not_le.mpr h)
    · rw [load_of_le h]
      exact iff_of_true rfl h
  · rcases Nat.lt_or_ge programCapacity rom.length with h | h
    · rw [load_of_lt h]
      exact .inr ⟨h, rfl, rfl⟩
    · exact .inl ⟨h, loaded_load h e⟩

end Emulator

end Chip8
