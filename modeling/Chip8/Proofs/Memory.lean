import Chip8.Memory.Basic

/-!
# Memory accesses and their faults

A block access is checked before it is carried out, so each is described by the
fault that its address and length alone decide (`Memory.readFault`,
`Memory.writeFault`), and by what it does where there is none.

* `getElem_fresh`: memory at power-on, byte by byte.
* `readWord_eq_ok_iff`, `readWord_eq_error_iff`: fetching a word.
* `slice_eq`, `writeBlock_eq`, `loadRom_eq`: block accesses.
* `writeFault_programStart_eq_none_iff`: the limit on the size of a ROM is exact.
* `bytesFrom_stored`: a block that is written is read back.
* `writeFault_eq_some_iff`: a block is refused at its start, or at the first
  address past the end of memory.
-/

namespace Chip8

namespace Action

variable {σ α β : Type}

theorem bind_apply (act : Action σ α) (f : α → Action σ β) (s : σ) :
    (act >>= f) s = match act s with
      | .ok a t => f a t
      | .error e t => .error e t := by
  simp only [bind, EStateM.bind]
  cases act s <;> rfl

theorem get_apply (s : σ) : (get : Action σ σ) s = .ok s s := rfl

@[simp] theorem ofExcept_ok (a : α) (s : σ) : ofExcept (.ok a) s = .ok a s := rfl

@[simp] theorem ofExcept_error (f : Fault) (s : σ) :
    ofExcept (.error f) s = (.error (.fault f) s : EStateM.Result Failure σ α) := rfl

end Action

/-! ## The first address that programs may not write -/

theorem firstUnwritable_eq_some_iff {a n b : Nat} :
    firstUnwritable a n = some b ↔
      (b = a ∧ 0 < n ∧ (a < 0x200 ∨ 0x1000 ≤ a)) ∨
      (b = 0x1000 ∧ 0x200 ≤ a ∧ a < 0x1000 ∧ 0x1000 < a + n) := by
  induction n generalizing a with
  | zero =>
    simp only [firstUnwritable, reduceCtorEq, false_iff]
    omega
  | succ n ih =>
    rw [firstUnwritable]
    split
    · next h =>
      rw [isWritable_eq_true_iff] at h
      rw [ih]
      omega
    · next h =>
      rw [isWritable_eq_true_iff] at h
      rw [Option.some.injEq]
      omega

/-- Inside memory, the next address is one more. -/
theorem Word.toNat_add_one {a : Word} (h : a.toNat < memorySize) :
    (a + 1).toNat = a.toNat + 1 := by
  simp only [memorySize] at h
  rw [BitVec.toNat_add, show (1 : Word).toNat = 1 from rfl]
  omega

namespace Memory

/-- The font from 0x050 on, and zeros elsewhere. -/
theorem getElem_fresh {a : Nat} (ha : a < memorySize) :
    fresh.bytes[a] = if 0x50 ≤ a ∧ a < 0xA0 then font.getD (a - 0x50) 0 else 0 := by
  have hs : fontStart.toNat = 0x50 := rfl
  have hl : 0x50 + font.length = 0xA0 := rfl
  simp only [fresh, getElem_overwrite, hs, hl, Vector.getElem_replicate]
  split
  · exact List.getElem_eq_getD 0
  · rfl

/-! ## Reading -/

/-- Memory has `op` at the address `a` and the next. -/
def HoldsWord (m : Memory) (a op : Word) : Prop :=
  ∃ h : a.toNat + 1 < memorySize, op = Word.ofBytes m.bytes[a.toNat] m.bytes[a.toNat + 1]

theorem readWord_eq (m : Memory) (a : Word) :
    m.readWord a =
      if h : a.toNat + 1 < memorySize then
        .ok (Word.ofBytes m.bytes[a.toNat] m.bytes[a.toNat + 1])
      else .error (.illegalAccess (BitVec.ofNat 16 (max a.toNat memorySize))) := by
  have hm : memorySize = 0x1000 := rfl
  simp only [readWord, read]
  by_cases ha : a.toNat < memorySize
  · have hs := Word.toNat_add_one ha
    by_cases hb : a.toNat + 1 < memorySize
    · simp only [ha, hb, hs, ↓reduceDIte, bind, Except.bind, pure, Except.pure]
    · have he : a + 1 = BitVec.ofNat 16 (max a.toNat memorySize) := by
        apply BitVec.eq_of_toNat_eq
        rw [hs, BitVec.toNat_ofNat]
        omega
      rw [← he]
      simp only [ha, hb, hs, ↓reduceDIte, bind, Except.bind]
  · have hb : ¬ a.toNat + 1 < memorySize := by omega
    have he : a = BitVec.ofNat 16 (max a.toNat memorySize) := by
      rw [Nat.max_eq_left (Nat.le_of_not_lt ha), BitVec.ofNat_toNat, BitVec.setWidth_eq]
    simp only [ha, hb, ↓reduceDIte, bind, Except.bind, ← he]

theorem readWord_eq_ok_iff {m : Memory} {a op : Word} :
    m.readWord a = .ok op ↔ m.HoldsWord a op := by
  rw [readWord_eq, HoldsWord]
  split
  · next h => simp only [Except.ok.injEq, h, exists_true_left, eq_comm]
  · next h => exact iff_of_false nofun fun ⟨h', _⟩ => h h'

/-- The fault of a fetch names the first byte that is not there. -/
theorem readWord_eq_error_iff {m : Memory} {a : Word} {f : Fault} :
    m.readWord a = .error f ↔
      0xFFE < a.toNat ∧ f = .illegalAccess (BitVec.ofNat 16 (max a.toNat 0x1000)) := by
  rw [readWord_eq]
  split
  · next h =>
    simp only [memorySize] at h
    simp only [reduceCtorEq, false_iff, not_and]
    omega
  · next h =>
    simp only [memorySize] at h
    simp only [Except.error.injEq, memorySize, show 0xFFE < a.toNat by omega, true_and, eq_comm]

/-- The bytes of `n` addresses from `a` on, as far as they lie in memory. -/
def bytesFrom (m : Memory) (a : Word) (n : Nat) : List Byte :=
  (m.bytes.extract a.toNat (a.toNat + n)).toList

/-- Why the `n` bytes from `a` on cannot be read. -/
def readFault (a : Word) (n : Nat) : Option Fault :=
  if a.toNat + n ≤ memorySize then none
  else some (.illegalAccess (BitVec.ofNat 16 (max a.toNat memorySize)))

theorem slice_eq (m : Memory) (a : Word) (n : Nat) :
    m.slice a n = match readFault a n with
      | some f => .error f
      | none => .ok (m.bytesFrom a n) := by
  simp only [slice, readFault, bytesFrom]
  split <;> rfl

theorem readFault_eq_none_iff {a : Word} {n : Nat} :
    readFault a n = none ↔ a.toNat + n ≤ memorySize := by
  simp only [readFault, ite_eq_left_iff, reduceCtorEq, imp_false, Decidable.not_not]

theorem slice_of_le {a : Word} {n : Nat} (h : a.toNat + n ≤ memorySize) (m : Memory) :
    m.slice a n = .ok (m.bytesFrom a n) := by
  rw [slice_eq, readFault_eq_none_iff.mpr h]

theorem length_bytesFrom {a : Word} {n : Nat} (h : a.toNat + n ≤ memorySize) (m : Memory) :
    (m.bytesFrom a n).length = n := by
  rw [bytesFrom, Vector.length_toList]
  omega

theorem length_bytesFrom_le (m : Memory) (a : Word) (n : Nat) : (m.bytesFrom a n).length ≤ n := by
  rw [bytesFrom, Vector.length_toList]
  omega

theorem getElem_bytesFrom {m : Memory} {a : Word} {n k : Nat} (h : a.toNat + k < memorySize)
    (hk : k < (m.bytesFrom a n).length) : (m.bytesFrom a n)[k] = m.bytes[a.toNat + k] := by
  simp only [bytesFrom, Vector.getElem_toList, Vector.getElem_extract]

/-- A block cannot be read if it goes past the end of memory. -/
theorem readFault_eq_some_iff {a : Word} {n : Nat} {f : Fault} :
    readFault a n = some f ↔
      0x1000 < a.toNat + n ∧ f = .illegalAccess (BitVec.ofNat 16 (max a.toNat 0x1000)) := by
  simp only [readFault, memorySize]
  split
  · next h =>
    simp only [reduceCtorEq, false_iff, not_and]
    omega
  · next h =>
    simp only [Option.some.injEq, Nat.not_le.mp h, true_and, eq_comm]

/-! ## Writing -/

/-- Why a program may not write the `n` bytes from `a` on. -/
def writeFault (a : Word) (n : Nat) : Option Fault :=
  (firstUnwritable a.toNat n).map fun b => .illegalAccess (BitVec.ofNat 16 (min b 0xFFFF))

/-- The memory with some bytes put at an address. -/
def stored (m : Memory) (a : Word) (data : List Byte) : Memory :=
  ⟨overwrite m.bytes a.toNat data⟩

/-- The bytes that a block does not cover stay. -/
theorem getElem_stored_of_not_mem {m : Memory} {a : Word} {data : List Byte} {i : Nat}
    (hi : i < memorySize) (h : ¬ (a.toNat ≤ i ∧ i < a.toNat + data.length)) :
    (m.stored a data).bytes[i] = m.bytes[i] := by
  rw [stored, getElem_overwrite, dif_neg h]

theorem covers_of_getElem_stored_ne {m : Memory} {a : Word} {data : List Byte} {i : Nat}
    {hi : i < memorySize} (h : (m.stored a data).bytes[i] ≠ m.bytes[i]) :
    a.toNat ≤ i ∧ i < a.toNat + data.length := by
  by_cases hc : a.toNat ≤ i ∧ i < a.toNat + data.length
  · exact hc
  · exact absurd (getElem_stored_of_not_mem hi hc) h

theorem getElem_stored_add {m : Memory} {a : Word} {data : List Byte} {k : Nat}
    (hk : k < data.length) (hi : a.toNat + k < memorySize) :
    (m.stored a data).bytes[a.toNat + k] = data[k] := by
  rw [stored, getElem_overwrite, dif_pos ⟨Nat.le_add_right _ _, Nat.add_lt_add_left hk _⟩]
  simp only [Nat.add_sub_cancel_left]

/-- What was stored is read back. -/
theorem bytesFrom_stored {m : Memory} {a : Word} {data : List Byte}
    (h : a.toNat + data.length ≤ memorySize) :
    (m.stored a data).bytesFrom a data.length = data := by
  refine List.ext_getElem (length_bytesFrom h _) fun k hk hd => ?_
  have hi : a.toNat + k < memorySize := Nat.lt_of_lt_of_le (Nat.add_lt_add_left hd _) h
  rw [getElem_bytesFrom hi, getElem_stored_add hd hi]

theorem holdsWord_stored {m : Memory} {a : Word} {hi lo : Byte} {data : List Byte}
    (h : a.toNat + 1 < memorySize) :
    (m.stored a (hi :: lo :: data)).HoldsWord a (Word.ofBytes hi lo) := by
  refine ⟨h, ?_⟩
  simp [stored, getElem_overwrite]

theorem checkWritable_eq (a : Word) (n : Nat) :
    checkWritable a n = match writeFault a n with
      | some f => .error f
      | none => .ok () := by
  simp only [checkWritable, writeFault]
  cases firstUnwritable a.toNat n <;> rfl

theorem checkWritable_eq_ok_iff_writeFault {a : Word} {n : Nat} :
    checkWritable a n = .ok () ↔ writeFault a n = none := by
  rw [checkWritable_eq]
  cases writeFault a n <;> simp

theorem checkWritable_eq_error_iff {a : Word} {n : Nat} {f : Fault} :
    checkWritable a n = .error f ↔ writeFault a n = some f := by
  rw [checkWritable_eq]
  cases writeFault a n <;> simp

theorem lt_of_firstUnwritable_eq_some {a : Word} {n c : Nat}
    (h : firstUnwritable a.toNat n = some c) : c < 0x10000 := by
  rcases firstUnwritable_eq_some_iff.mp h with ⟨rfl, -⟩ | ⟨rfl, -⟩
  · exact a.isLt
  · decide

/-- The address that a block is refused for is a word. -/
theorem exists_writeFault_of_firstUnwritable {a : Word} {n c : Nat}
    (h : firstUnwritable a.toNat n = some c) :
    ∃ b : Word, b.toNat = c ∧ writeFault a n = some (.illegalAccess b) := by
  have hc := lt_of_firstUnwritable_eq_some h
  refine ⟨BitVec.ofNat 16 c, ?_, ?_⟩
  · rw [BitVec.toNat_ofNat, Nat.mod_eq_of_lt hc]
  · rw [writeFault, h, Option.map_some, Nat.min_eq_left (Nat.le_of_lt_succ hc)]

theorem ofNat_min_toNat (a : Word) : BitVec.ofNat 16 (min a.toNat 0xFFFF) = a := by
  rw [Nat.min_eq_left (by omega), BitVec.ofNat_toNat, BitVec.setWidth_eq]

/-- A block is refused at its start if that is outside program memory, and else
at the end of memory if it goes beyond. -/
theorem writeFault_eq_some_iff {a : Word} {n : Nat} {f : Fault} :
    writeFault a n = some f ↔
      (f = .illegalAccess a ∧ 0 < n ∧ (a.toNat < 0x200 ∨ 0x1000 ≤ a.toNat)) ∨
      (f = .illegalAccess 0x1000 ∧ 0x200 ≤ a.toNat ∧ a.toNat < 0x1000 ∧ 0x1000 < a.toNat + n) := by
  simp only [writeFault, Option.map_eq_some_iff, firstUnwritable_eq_some_iff]
  constructor
  · rintro ⟨b, ⟨rfl, h⟩ | ⟨rfl, h⟩, rfl⟩
    · exact .inl ⟨by rw [ofNat_min_toNat], h⟩
    · exact .inr ⟨rfl, h⟩
  · rintro (⟨rfl, h⟩ | ⟨rfl, h⟩)
    · exact ⟨_, .inl ⟨rfl, h⟩, by rw [ofNat_min_toNat]⟩
    · exact ⟨_, .inr ⟨rfl, h⟩, rfl⟩

theorem writeFault_eq_none_iff {a : Word} {n : Nat} :
    writeFault a n = none ↔ n = 0 ∨ 0x200 ≤ a.toNat ∧ a.toNat + n ≤ 0x1000 := by
  simp only [writeFault, Option.map_eq_none_iff, firstUnwritable_eq_none_iff,
    isWritable_eq_true_iff]
  constructor
  · intro h
    by_cases hn : n = 0
    · exact .inl hn
    · have h₀ := h 0 (by omega)
      have h₁ := h (n - 1) (by omega)
      omega
  · intro h k hk
    omega

/-- A block write does nothing at all, or all of it; only an empty block can lie
outside memory. -/
theorem writeBlock_eq (a : Word) (data : List Byte) (m : Memory) :
    writeBlock a data m = match writeFault a data.length with
      | some f => .error (.fault f) m
      | none =>
        if a.toNat + data.length ≤ memorySize then .ok () (m.stored a data)
        else .error .undefined m := by
  rw [writeBlock, Action.bind_apply, checkWritable_eq]
  cases writeFault a data.length <;> rfl

theorem writeBlock_of_ne_nil {a : Word} {data : List Byte} (h : data ≠ []) (m : Memory) :
    writeBlock a data m = match writeFault a data.length with
      | some f => .error (.fault f) m
      | none => .ok () (m.stored a data) := by
  rw [writeBlock_eq]
  split
  · rfl
  · next hf =>
    have hl := List.length_pos_iff.mpr h
    have hw := writeFault_eq_none_iff.mp hf
    rw [if_pos (by simp only [memorySize]; omega)]

/-- The ROMs that are small enough are just those that go wholly to program memory. -/
theorem writeFault_programStart_eq_none_iff {n : Nat} :
    writeFault programStart n = none ↔ n ≤ programCapacity := by
  rw [writeFault_eq_none_iff, show programStart.toNat = 0x200 from rfl, programCapacity]
  omega

/-- A ROM is loaded if it fits into program memory. -/
theorem loadRom_eq (rom : List Byte) (m : Memory) :
    loadRom rom m =
      if rom.length ≤ programCapacity then .ok () (m.stored programStart rom)
      else .error (.fault (.romTooLarge rom.length programCapacity)) m := by
  rw [loadRom]
  split
  · next h =>
    rw [writeBlock_eq, writeFault_programStart_eq_none_iff.mpr h]
    exact if_pos (Nat.add_le_add_left h 0x200)
  · rfl

end Memory

end Chip8
