import Chip8.Proofs.Ownership

/-!
# Registers to memory and back

FX55 and FX33 store a block at the index register, and FX65 loads one from there. A store is
refused unless the whole block lies in program memory, and there every block can be read. So what
was stored is loaded again by every machine that has the memory and the index register.

* `stored_of_obey`: the memory after a store that is not refused.
* `obey_load`: loading a block that was stored.
* `toNat_decimalDigits`: three digits make up a byte.
* `block_transfer_round_trip`: registers and digits, stored and loaded.
-/

namespace Chip8.Machine

open Opcode

variable {op : Word} {i : Instruction} {m m' n : Machine} {flow : Flow} {data : List Byte}

/-! ## Storing a block -/

/-- The instruction stores some bytes at the index register, if it may. -/
structure Stores (m : Machine) (i : Instruction) (data : List Byte) : Prop where
  ne_nil : data ≠ []
  refusal : m.refusal i = (Memory.writeFault m.registers.index data.length).map .fault
  effect : m.effect i = { m with memory := m.memory.stored m.registers.index data }

theorem stores_storeDecimal (m : Machine) (r : Byte) :
    m.Stores (.storeDecimal r) (decimalDigits (m.reg r)) :=
  ⟨List.cons_ne_nil _ _, rfl, rfl⟩

theorem stores_storeRegisters (m : Machine) {r : Byte} (h : r.toNat < registerCount) :
    m.Stores (.storeRegisters r) (m.registers.data.toList.take (r.toNat + 1)) := by
  have hlen := m.registers.length_take_data h
  refine ⟨List.ne_nil_of_length_eq_add_one hlen, ?_, rfl⟩
  rw [hlen]
  exact if_pos h

/-- A store that succeeds has put the block into program memory, and changed nothing else. -/
theorem stored_of_obey (he : Encodes op i) (hs : m.Stores i data) (h : obey op m = .ok flow m') :
    m' = { m with memory := m.memory.stored m.registers.index data } ∧
      m.registers.index.toNat + data.length ≤ memorySize := by
  obtain ⟨j, hj, hr, -, rfl⟩ := obey_eq_ok_iff.mp h
  obtain rfl := encodes_unique he hj
  rw [hs.refusal, Option.map_eq_none_iff, Memory.writeFault_eq_none_iff] at hr
  have hlen := List.length_pos_iff.mpr hs.ne_nil
  exact ⟨hs.effect, by simp only [memorySize]; omega⟩

/-! ## Loading a block -/

/-- A block that was stored at the index register is loaded into the registers from 0 on. -/
theorem obey_load {l : Word} (hl : l &&& 0xF0FF = 0xF065) {mem : Memory}
    (hlen : data.length = (x l).toNat + 1)
    (hfit : n.registers.index.toNat + data.length ≤ memorySize)
    (hmem : n.memory = mem.stored n.registers.index data) :
    obey l n = .ok .next (n.mapRegisters (·.setAll data)) := by
  have he : Encodes l (.loadRegisters (x l)) := ⟨hl, rfl⟩
  have hread : n.memory.bytesFrom n.registers.index ((x l).toNat + 1) = data := by
    rw [hmem, ← hlen]
    exact Memory.bytesFrom_stored hfit
  have hr : n.refusal (.loadRegisters (x l)) = none := by
    rw [refusal, ← hlen, Memory.readFault_eq_none_iff.mpr hfit]
    rfl
  have hm : n.effect (.loadRegisters (x l)) = n.mapRegisters (·.setAll data) := by
    rw [effect, hread]
  rw [obey_of_encodes he, hr, hm]
  rfl

/-- The first registers of one file, set in another. -/
theorem get_setAll_take (s t : Registers) (r : Byte) {k : Nat} (hk : k ≤ registerCount) :
    (s.setAll (t.data.toList.take k)).get r = if r.low.val < k then t.get r else s.get r := by
  rw [Registers.get_setAll s r (Nat.le_trans (List.length_take_le ..) hk)]
  split
  · next hlt =>
    rw [List.getElem?_take_of_lt hlt, Vector.getElem?_toList,
      Vector.getElem?_eq_getElem r.low.isLt]
    rfl
  · next hge =>
    rw [List.getElem?_take_eq_none (Nat.le_of_not_lt hge)]
    rfl

/-! ## Decimal digits -/

/-- A byte has three decimal digits. -/
theorem toNat_decimalDigits (b : Byte) :
    ∃ d₀ d₁ d₂ : Byte, decimalDigits b = [d₀, d₁, d₂] ∧
      d₀.toNat ≤ 9 ∧ d₁.toNat ≤ 9 ∧ d₂.toNat ≤ 9 ∧
      100 * d₀.toNat + 10 * d₁.toNat + d₂.toNat = b.toNat := by
  have hb := b.isLt
  refine ⟨_, _, _, rfl, ?_, ?_, ?_, ?_⟩ <;>
  · simp only [BitVec.toNat_udiv, BitVec.toNat_umod, BitVec.reduceToNat]
    omega

/-- When FX55 succeeds, it writes one byte for each of V0 to VX from I on, and FX65 with the same X
takes any machine with this memory and this I to the same V0 to VX; its other registers, its memory
and its I stay. When FX33 succeeds, it writes the three decimal digits of VX from I on, and F265
loads them into V0 to V2. -/
theorem block_transfer_round_trip (m : Machine) (op : Word) :
    (op &&& 0xF0FF = 0xF055 → ∀ flow m', obey op m = .ok flow m' →
      (∀ a (ha : a < memorySize), m'.memory.bytes[a] ≠ m.memory.bytes[a] →
        m.registers.index.toNat ≤ a ∧ a ≤ m.registers.index.toNat + (x op).toNat) ∧
      ∀ (l : Word) (n : Machine), l &&& 0xF0FF = 0xF065 → x l = x op →
        n.registers.index = m.registers.index → n.memory = m'.memory →
        ∃ n', obey l n = .ok .next n' ∧
          (∀ r : Byte, r.low.val ≤ (x op).toNat → n'.reg r = m.reg r) ∧
          (∀ r : Byte, (x op).toNat < r.low.val → n'.reg r = n.reg r) ∧
          n'.memory = n.memory ∧ n'.registers.index = n.registers.index) ∧
    (op &&& 0xF0FF = 0xF033 → ∀ flow m', obey op m = .ok flow m' →
      ∃ d₀ d₁ d₂ : Byte,
        m'.memory.slice m.registers.index 3 = .ok [d₀, d₁, d₂] ∧
        d₀.toNat ≤ 9 ∧ d₁.toNat ≤ 9 ∧ d₂.toNat ≤ 9 ∧
        100 * d₀.toNat + 10 * d₁.toNat + d₂.toNat = (m.reg (x op)).toNat ∧
        (∀ a (ha : a < memorySize), m'.memory.bytes[a] ≠ m.memory.bytes[a] →
          m.registers.index.toNat ≤ a ∧ a ≤ m.registers.index.toNat + 2) ∧
        ∀ n : Machine, n.registers.index = m'.registers.index → n.memory = m'.memory →
          ∃ n', obey 0xF265 n = .ok .next n' ∧
            n'.reg 0 = d₀ ∧ n'.reg 1 = d₁ ∧ n'.reg 2 = d₂) := by
  refine ⟨fun ho flow m' h => ?_, fun ho flow m' h => ?_⟩
  · have hx := toNat_x_lt op
    obtain ⟨rfl, hfit⟩ :=
      stored_of_obey (i := .storeRegisters _) ⟨ho, rfl⟩ (m.stores_storeRegisters hx) h
    have hlen := m.registers.length_take_data hx
    refine ⟨fun a ha hne => ?_, fun l n hl hxl hi hmem => ?_⟩
    · have hc := Memory.covers_of_getElem_stored_ne hne
      omega
    · -- all that the load looks at is the index register and the memory
      rw [← hi] at hmem hfit
      refine ⟨_, obey_load hl (by rw [hlen, hxl]) hfit hmem, fun r hr => ?_, fun r hr => ?_, rfl, ?_⟩
      · exact (get_setAll_take _ _ r hx).trans (if_pos (Nat.lt_succ_of_le hr))
      · exact (get_setAll_take _ _ r hx).trans (if_neg (Nat.not_lt.mpr hr))
      · exact n.registers.index_setAll _
  · obtain ⟨rfl, hfit⟩ :=
      stored_of_obey (i := .storeDecimal _) ⟨ho, rfl⟩ (m.stores_storeDecimal _) h
    obtain ⟨d₀, d₁, d₂, hd, h₀, h₁, h₂, hsum⟩ := toNat_decimalDigits (m.reg (x op))
    rw [hd] at hfit ⊢
    refine ⟨d₀, d₁, d₂, ?_, h₀, h₁, h₂, hsum, fun a ha hne => ?_, fun n hi hmem => ?_⟩
    · have hread := Memory.bytesFrom_stored (m := m.memory) hfit
      exact (Memory.slice_of_le hfit _).trans (congrArg Except.ok hread)
    · obtain ⟨hle, hlt⟩ := Memory.covers_of_getElem_stored_ne hne
      exact ⟨hle, Nat.le_of_lt_succ hlt⟩
    · replace hi : n.registers.index = m.registers.index := hi
      rw [← hi] at hmem hfit
      have hlen : [d₀, d₁, d₂].length = (x 0xF265).toNat + 1 := show 3 = _ by decide
      refine ⟨_, obey_load (by decide) hlen hfit hmem, ?_, ?_, ?_⟩ <;>
      · exact Registers.get_setAll _ _ (show 3 ≤ registerCount by decide)

/-- All registers are stored and loaded into a machine that has none of them, and VF, as data, comes
back; its value 157 is stored as the digits 1, 5 and 7. -/
theorem block_transfer_round_trip_flag :
    let m := (fresh (.ofSeed 7)).mapRegisters fun r => (r.set 0xF 157).point 0x300
    (∃ m', obey 0xFF55 m = .ok .next m' ∧
      ∃ n', obey 0xFF65 { fresh (.ofSeed 8) with
          memory := m'.memory, registers := Registers.fresh.point 0x300 } = .ok .next n' ∧
        n'.reg 0xF = 157) ∧
      ∃ m', obey 0xFF33 m = .ok .next m' ∧ m'.memory.slice 0x300 3 = .ok [1, 5, 7] := by
  intro m
  have hF : m.reg 0xF = 157 := by decide
  have hregs : obey 0xFF55 m = .ok .next (m.effect (.storeRegisters 0xF)) :=
    obey_of_encodes (show Encodes 0xFF55 (.storeRegisters 0xF) from ⟨by decide, by decide⟩) m
  have hdigits : obey 0xFF33 m = .ok .next (m.effect (.storeDecimal 0xF)) :=
    obey_of_encodes (show Encodes 0xFF33 (.storeDecimal 0xF) from ⟨by decide, by decide⟩) m
  refine ⟨⟨_, hregs, ?_⟩, ⟨_, hdigits, ?_⟩⟩
  · obtain ⟨-, hload⟩ := (block_transfer_round_trip m 0xFF55).1 (by decide) _ _ hregs
    obtain ⟨n', hn, hreg, -⟩ := hload 0xFF65 { fresh (.ofSeed 8) with
      memory := _, registers := Registers.fresh.point 0x300 } (by decide) rfl rfl rfl
    exact ⟨n', hn, (hreg 0xF (by decide)).trans hF⟩
  · obtain ⟨d₀, d₁, d₂, hslice, h₀, h₁, h₂, hsum, -⟩ :=
      (block_transfer_round_trip m 0xFF33).2 (by decide) _ _ hdigits
    rw [show x 0xFF33 = 0xF from by decide, hF, show (157 : Byte).toNat = 157 from rfl] at hsum
    obtain rfl : d₀ = 1 := BitVec.eq_of_toNat_eq (show d₀.toNat = 1 by omega)
    obtain rfl : d₁ = 5 := BitVec.eq_of_toNat_eq (show d₁.toNat = 5 by omega)
    obtain rfl : d₂ = 7 := BitVec.eq_of_toNat_eq (show d₂.toNat = 7 by omega)
    exact hslice

end Chip8.Machine
