import Chip8.Proofs.Memory

/-!
# Reading a block

Bytes can be read one at a time, two at a time as a word, or as a block. Each way has a check of
its own, and all agree on what is read and on the address of the fault.

* `ReadsBytewise`: a block is read as its bytes are, or refused for the first that is not there.
* `ReadsWord`: a word is the block of its two bytes.
* `read_bytewise_or_refused`: so it is with all words, and with all blocks of at least one byte but
  those that are too long for a number.
-/

namespace Chip8.Memory

variable {m : Memory} {a : Word} {n : Nat} {bs : List Byte}

/-! ## The three ways to read -/

theorem read_eq_ok_iff {b : Byte} :
    m.read a = .ok b ↔ ∃ h : a.toNat < memorySize, m.bytes[a.toNat] = b := by
  rw [read]
  by_cases h : a.toNat < memorySize
  · simp only [h, ↓reduceDIte, Except.ok.injEq, exists_true_left]
  · rw [dif_neg h]
    simp only [reduceCtorEq, false_iff]
    exact not_exists_of_forall_not fun hb => absurd hb h

theorem slice_eq_ok_iff :
    m.slice a n = .ok bs ↔ a.toNat + n ≤ memorySize ∧ m.bytesFrom a n = bs := by
  rw [← readFault_eq_none_iff, slice_eq]
  cases readFault a n <;> simp

theorem slice_eq_error_iff {f : Fault} : m.slice a n = .error f ↔ readFault a n = some f := by
  rw [slice_eq]
  cases readFault a n <;> simp

theorem readBlock_eq_undefined_iff :
    readBlock a n m = .error .undefined m ↔ indexLimit ≤ a.toNat + n := by
  rw [readBlock]
  split
  · next h =>
    refine iff_of_false ?_ (Nat.not_le.mpr h)
    cases m.slice a n <;> nofun
  · next h => exact iff_of_true rfl (Nat.le_of_not_lt h)

theorem readBlock_eq_ok_iff :
    readBlock a n m = .ok bs m ↔ a.toNat + n < indexLimit ∧ m.slice a n = .ok bs := by
  rw [readBlock]
  split
  · next h => cases hs : m.slice a n <;> simp [h]
  · next h => simp [h]

theorem readBlock_eq_error_iff {f : Fault} :
    readBlock a n m = .error (.fault f) m ↔
      a.toNat + n < indexLimit ∧ m.slice a n = .error f := by
  rw [readBlock]
  split
  · next h => cases hs : m.slice a n <;> simp [h]
  · next h => simp [h]

/-- The bytes that a block has are those at its addresses. -/
theorem slice_eq_ok_iff_forall_read (h : 1 ≤ n ∨ a.toNat ≤ memorySize) :
    m.slice a n = .ok bs ↔ bs.length = n ∧
      ∀ k (hk : k < bs.length), ∃ b : Word, b.toNat = a.toNat + k ∧ m.read b = .ok bs[k] := by
  constructor
  · intro hs
    obtain ⟨hfit, rfl⟩ := slice_eq_ok_iff.mp hs
    refine ⟨length_bytesFrom hfit m, fun k hk => ?_⟩
    have hin : a.toNat + k < memorySize := by
      rw [length_bytesFrom hfit] at hk
      omega
    have hb : (BitVec.ofNat 16 (a.toNat + k)).toNat = a.toNat + k := by
      simp only [memorySize] at hin
      rw [BitVec.toNat_ofNat]
      omega
    refine ⟨_, hb, read_eq_ok_iff.mpr ⟨by rwa [hb], ?_⟩⟩
    simp only [hb, getElem_bytesFrom hin]
  · rintro ⟨rfl, hread⟩
    have hfit : a.toNat + bs.length ≤ memorySize := by
      rcases Nat.eq_zero_or_pos bs.length with h₀ | hpos
      · omega
      · obtain ⟨b, hb, hr⟩ := hread (bs.length - 1) (Nat.sub_one_lt_of_lt hpos)
        obtain ⟨hlt, -⟩ := read_eq_ok_iff.mp hr
        omega
    refine slice_eq_ok_iff.mpr ⟨hfit, List.ext_getElem (length_bytesFrom hfit m) fun k hk hk' => ?_⟩
    obtain ⟨b, hb, hr⟩ := hread k hk'
    obtain ⟨hlt, hbyte⟩ := read_eq_ok_iff.mp hr
    rw [getElem_bytesFrom (hb ▸ hlt), ← hbyte]
    simp only [hb]

/-- A block that goes past the end of memory cannot be read for the first address there. -/
theorem exists_readFault (hn : 1 ≤ n) (h : memorySize < a.toNat + n) :
    ∃ k < n, ∃ b : Word, b.toNat = a.toNat + k ∧ memorySize ≤ b.toNat ∧
      (∀ j < k, a.toNat + j < memorySize) ∧ readFault a n = some (.illegalAccess b) := by
  have hb : (BitVec.ofNat 16 (max a.toNat 0x1000)).toNat = max a.toNat 0x1000 := by
    rw [BitVec.toNat_ofNat]
    omega
  simp only [memorySize] at h ⊢
  refine ⟨max a.toNat 0x1000 - a.toNat, by omega, BitVec.ofNat 16 (max a.toNat 0x1000), ?_⟩
  rw [hb]
  exact ⟨by omega, by omega, by omega, readFault_eq_some_iff.mpr ⟨h, rfl⟩⟩

/-- A block is read just if all of its bytes are, and then consists of them. It is refused for
the first of its addresses past the end of memory. -/
structure ReadsBytewise (m : Memory) (a : Word) (n : Nat) : Prop where
  read_iff : ∀ bs, readBlock a n m = .ok bs m ↔ bs.length = n ∧
    ∀ k (hk : k < bs.length), ∃ b : Word, b.toNat = a.toNat + k ∧ m.read b = .ok bs[k]
  refused : (¬ ∃ bs, readBlock a n m = .ok bs m) →
    ∃ k < n, ∃ b : Word, b.toNat = a.toNat + k ∧ memorySize ≤ b.toNat ∧
      (∀ j < k, a.toNat + j < memorySize) ∧
      readBlock a n m = .error (.fault (.illegalAccess b)) m

theorem readsBytewise (h : a.toNat + n < indexLimit) (hn : 1 ≤ n ∨ a.toNat ≤ memorySize)
    (m : Memory) : m.ReadsBytewise a n where
  read_iff bs := by
    rw [readBlock_eq_ok_iff, slice_eq_ok_iff_forall_read hn]
    exact and_iff_right h
  refused hno := by
    have hlt : memorySize < a.toNat + n := Nat.lt_of_not_le fun hle =>
      hno ⟨_, readBlock_eq_ok_iff.mpr ⟨h, slice_of_le hle m⟩⟩
    obtain ⟨k, hk, b, hb, hle, hj, hf⟩ := exists_readFault (by omega) hlt
    exact ⟨k, hk, b, hb, hle, hj, readBlock_eq_error_iff.mpr ⟨h, slice_eq_error_iff.mpr hf⟩⟩

/-- A word is read as the block of its two bytes, the high byte first. The address of the
second is computed only if there is a first byte, and so never too large for a word. -/
structure ReadsWord (m : Memory) (a : Word) : Prop where
  word_iff : ∀ w, m.readWord a = .ok w ↔
    ∃ hi lo, readBlock a 2 m = .ok [hi, lo] m ∧ w.toNat = 256 * hi.toNat + lo.toNat
  fault_iff : ∀ f, m.readWord a = .error f ↔ readBlock a 2 m = .error (.fault f) m
  first : ∀ f, m.read a = .error f → m.readWord a = .error f
  second : ∀ hi, m.read a = .ok hi → a.toNat + 1 < 0x10000

theorem bytesFrom_two (h₀ : a.toNat < memorySize) (h₁ : a.toNat + 1 < memorySize) :
    m.bytesFrom a 2 = [m.bytes[a.toNat], m.bytes[a.toNat + 1]] := by
  refine List.ext_getElem (length_bytesFrom h₁ m) fun k hk hk' => ?_
  rcases k with _ | _ | k
  · exact getElem_bytesFrom h₀ hk
  · exact getElem_bytesFrom h₁ hk
  · exact absurd hk' (Nat.not_lt.mpr (Nat.le_add_left 2 k))

theorem toNat_add_two_lt (a : Word) : a.toNat + 2 < indexLimit := by
  have := a.isLt
  simp only [indexLimit]
  omega

theorem readsWord (m : Memory) (a : Word) : m.ReadsWord a where
  word_iff w := by
    rw [readWord_eq_ok_iff]
    constructor
    · rintro ⟨h, rfl⟩
      have hs := slice_eq_ok_iff.mpr ⟨h, bytesFrom_two (m := m) (Nat.lt_of_succ_lt h) h⟩
      exact ⟨_, _, readBlock_eq_ok_iff.mpr ⟨toNat_add_two_lt a, hs⟩, Word.toNat_ofBytes ..⟩
    · rintro ⟨hi, lo, hb, hw⟩
      obtain ⟨-, hs⟩ := readBlock_eq_ok_iff.mp hb
      obtain ⟨hfit, hbytes⟩ := slice_eq_ok_iff.mp hs
      rw [bytesFrom_two (Nat.lt_of_succ_lt hfit) hfit, List.cons_eq_cons, List.cons_eq_cons] at hbytes
      obtain ⟨rfl, rfl, -⟩ := hbytes
      exact ⟨hfit, BitVec.eq_of_toNat_eq (by rw [hw, Word.toNat_ofBytes])⟩
  fault_iff f := by
    rw [readWord_eq_error_iff, readBlock_eq_error_iff, slice_eq_error_iff, readFault_eq_some_iff,
      and_iff_right (toNat_add_two_lt a)]
    exact and_congr_left' (by omega)
  first f h := by
    rw [readWord, h]
    rfl
  second hi h := by
    obtain ⟨hlt, -⟩ := read_eq_ok_iff.mp h
    simp only [memorySize] at hlt
    omega

/-- Every block of at least one byte is read as its bytes are or refused, unless it is so long
that the index past its end is too large for a number: then reading it is undefined. An empty
block is, as long as it does not start past the end of memory, where it is refused. And every
word is the block of its two bytes. -/
theorem read_bytewise_or_refused (m : Memory) (a : Word) (n : Nat) :
    (m.ReadsBytewise a n ↔ a.toNat + n < indexLimit ∧ (1 ≤ n ∨ a.toNat ≤ memorySize)) ∧
    (readBlock a n m = .error .undefined m ↔ indexLimit ≤ a.toNat + n) ∧
    m.ReadsWord a := by
  refine ⟨⟨fun h => ?_, fun h => readsBytewise h.1 h.2 m⟩, readBlock_eq_undefined_iff,
    m.readsWord a⟩
  by_cases hok : ∃ bs, readBlock a n m = .ok bs m
  · obtain ⟨bs, hbs⟩ := hok
    obtain ⟨hlt, hs⟩ := readBlock_eq_ok_iff.mp hbs
    obtain ⟨hfit, -⟩ := slice_eq_ok_iff.mp hs
    exact ⟨hlt, .inr (Nat.le_of_add_right_le hfit)⟩
  · obtain ⟨k, hk, b, -, -, -, herr⟩ := h.refused hok
    exact ⟨(readBlock_eq_error_iff.mp herr).1, .inl (Nat.one_le_of_lt hk)⟩

/-- No byte from 0x1000 on can be read, but to read the longest block from 1 on is undefined, as
the index past its end is one too large. -/
theorem overlong_block_undefined :
    readBlock 1 0xFFFFFFFFFFFFFFFF fresh = .error .undefined fresh ∧
      ¬ fresh.ReadsBytewise 1 0xFFFFFFFFFFFFFFFF := by
  have hu : readBlock 1 0xFFFFFFFFFFFFFFFF fresh = .error .undefined fresh :=
    readBlock_eq_undefined_iff.mpr (by decide)
  have hno : ¬ ∃ bs, readBlock 1 0xFFFFFFFFFFFFFFFF fresh = .ok bs fresh := fun ⟨bs, hok⟩ => by
    rw [hu] at hok
    cases hok
  refine ⟨hu, fun h => ?_⟩
  obtain ⟨k, -, b, -, -, -, herr⟩ := h.refused hno
  rw [hu] at herr
  cases herr

end Chip8.Memory
