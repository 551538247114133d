import Chip8.Proofs.Memory

/-!
# Writing a block

A block is checked as a whole and then copied as a whole. Written in turn, its bytes would go to
memory up to the first that a program may not write. The two agree on which blocks are written, on
what is then in memory and on the address of the fault; but of a block that is refused, nothing is
written.

* `writeEach_eq`: what becomes of bytes that are written in turn.
* `WritesBytewise`: a block is written as its bytes are, or refused without a trace.
* `written_whole_or_refused`: so it is with every block but the empty ones past the end of memory.
-/

namespace Chip8.Memory

variable {m : Memory} {a : Word} {n : Nat} {data : List Byte}

/-! ## Writing bytes in turn -/

/-- Writes bytes one by one, from an address on. -/
def writeEach (a : Word) : List Byte → Action Memory Unit
  | [] => pure ()
  | b :: bs => do
    write a b
    writeEach (a + 1) bs

theorem write_eq (a : Word) (b : Byte) (m : Memory) :
    write a b m =
      if isWritable a.toNat then .ok () (m.stored a [b])
      else .error (.fault (.illegalAccess a)) m := by
  have hw : write a b m = writeBlock a [b] m := rfl
  have hf : writeFault a [b].length =
      if isWritable a.toNat then none else some (.illegalAccess a) := by
    rw [writeFault, List.length_singleton, firstUnwritable]
    split
    · rfl
    · rw [Option.map_some, ofNat_min_toNat]
  rw [hw, writeBlock_of_ne_nil (List.cons_ne_nil b []), hf]
  cases isWritable a.toNat <;> rfl

theorem stored_cons (h : a.toNat < memorySize) (b : Byte) (bs : List Byte) (m : Memory) :
    m.stored a (b :: bs) = (m.stored a [b]).stored (a + 1) bs := by
  simp only [stored, overwrite, Word.toNat_add_one h]

/-- Bytes that are written in turn are all written, or those before the first that programs
may not write. -/
theorem writeEach_eq (a : Word) (data : List Byte) (m : Memory) :
    writeEach a data m = match firstUnwritable a.toNat data.length with
      | none => .ok () (m.stored a data)
      | some b => .error (.fault (.illegalAccess (BitVec.ofNat 16 b)))
          (m.stored a (data.take (b - a.toNat))) := by
  induction data generalizing a m with
  | nil => rfl
  | cons b bs ih =>
    rw [writeEach, Action.bind_apply, write_eq, List.length_cons, firstUnwritable]
    by_cases h : isWritable a.toNat = true
    · obtain ⟨-, ha⟩ := isWritable_eq_true_iff.mp h
      simp only [h, ↓reduceIte, ih, Word.toNat_add_one ha]
      cases hf : firstUnwritable (a.toNat + 1) bs.length with
      | none => simp only [← stored_cons ha]
      | some c =>
        obtain ⟨k, -, rfl, -⟩ := firstUnwritable_eq_some_iff_exists.mp hf
        have hk : a.toNat + 1 + k - a.toNat = k + 1 := by omega
        simp only [hk, List.take_succ_cons, ← stored_cons ha, Nat.add_sub_cancel_left]
    · simp only [h, Bool.false_eq_true, ↓reduceIte, BitVec.ofNat_toNat, BitVec.setWidth_eq,
        Nat.sub_self, List.take_zero]
      rfl

/-! ## Writing a block -/

/-- Only an empty block passes the check outside memory. -/
theorem writeBlock_eq_undefined_iff :
    writeBlock a data m = .error .undefined m ↔ data = [] ∧ memorySize < a.toNat := by
  rw [writeBlock_eq]
  cases hf : writeFault a data.length with
  | some f =>
    refine iff_of_false nofun fun ⟨hd, _⟩ => ?_
    have hnone : writeFault a data.length = none :=
      writeFault_eq_none_iff.mpr (.inl (List.length_eq_zero_iff.mpr hd))
    rw [hnone] at hf
    cases hf
  | none =>
    rw [writeFault_eq_none_iff] at hf
    simp only [memorySize]
    split
    · next hle =>
      refine iff_of_false nofun fun ⟨hd, hlt⟩ => ?_
      rw [hd, List.length_nil] at hle
      omega
    · next hlt =>
      refine iff_of_true rfl ⟨List.length_eq_zero_iff.mp ?_, ?_⟩ <;> omega

/-- A block is written just if all of it lies in program memory, and then as its bytes are in
turn. It is refused for the first of its addresses that does not, and changes nothing. -/
structure WritesBytewise (m : Memory) (a : Word) (data : List Byte) : Prop where
  written_iff : (∃ m', writeBlock a data m = .ok () m') ↔
    ∀ k < data.length, Region.of? (a.toNat + k) = some .program
  bytewise : ∀ m', writeBlock a data m = .ok () m' → writeEach a data m = .ok () m'
  refused : (¬ ∃ m', writeBlock a data m = .ok () m') →
    ∃ k < data.length, ∃ b : Word, b.toNat = a.toNat + k ∧ Region.of? b.toNat ≠ some .program ∧
      (∀ j < k, Region.of? (a.toNat + j) = some .program) ∧
      writeBlock a data m = .error (.fault (.illegalAccess b)) m

theorem writesBytewise_of_none (hf : firstUnwritable a.toNat data.length = none)
    (hok : writeBlock a data m = .ok () (m.stored a data)) : m.WritesBytewise a data where
  written_iff := by
    refine iff_of_true ⟨_, hok⟩ fun k hk => ?_
    exact isWritable_eq_true_iff_of?.mp (firstUnwritable_eq_none_iff.mp hf k hk)
  bytewise m' h := by
    rw [hok] at h
    cases h
    rw [writeEach_eq, hf]
  refused h := absurd ⟨_, hok⟩ h

theorem writesBytewise_of_some {c : Nat} (hf : firstUnwritable a.toNat data.length = some c) :
    m.WritesBytewise a data := by
  obtain ⟨b, hb, hfault⟩ := exists_writeFault_of_firstUnwritable hf
  obtain ⟨k, hk, rfl, hw, hj⟩ := firstUnwritable_eq_some_iff_exists.mp hf
  have herr : writeBlock a data m = .error (.fault (.illegalAccess b)) m := by
    rw [writeBlock_eq, hfault]
  have hno : ¬ ∃ m', writeBlock a data m = .ok () m' := fun ⟨m', h⟩ => by
    rw [herr] at h
    cases h
  rw [isWritable_eq_true_iff_of?] at hw
  refine ⟨iff_of_false hno fun h => hw (h k hk), fun m' h => absurd ⟨m', h⟩ hno, fun _ => ?_⟩
  refine ⟨k, hk, b, hb, hb ▸ hw, fun j hjk => isWritable_eq_true_iff_of?.mp (hj j hjk), herr⟩

/-- Every block is written as its bytes are or refused, except for an empty block past the end
of memory. Each of its addresses lies in program memory, as there are none, and yet it is
undefined to write it. -/
theorem written_whole_or_refused (m : Memory) (a : Word) (data : List Byte) :
    (m.WritesBytewise a data ↔ data ≠ [] ∨ a.toNat ≤ memorySize) ∧
    (writeBlock a data m = .error .undefined m ↔ data = [] ∧ memorySize < a.toNat) := by
  refine ⟨⟨fun h => ?_, fun h => ?_⟩, writeBlock_eq_undefined_iff⟩
  · refine Decidable.or_iff_not_imp_left.mpr fun hd => Nat.le_of_not_lt fun hlt => ?_
    obtain rfl : data = [] := Decidable.not_not.mp hd
    obtain ⟨m', hok⟩ := h.written_iff.mpr nofun
    rw [writeBlock_eq_undefined_iff.mpr ⟨rfl, hlt⟩] at hok
    cases hok
  · cases hf : firstUnwritable a.toNat data.length with
    | some c => exact writesBytewise_of_some hf
    | none =>
      have hnone : writeFault a data.length = none := by rw [writeFault, hf, Option.map_none]
      have hfit : a.toNat + data.length ≤ memorySize := by
        rcases writeFault_eq_none_iff.mp hnone with hn | ⟨-, hle⟩
        · rw [List.length_eq_zero_iff.mp hn]
          exact h.resolve_left (not_not_intro (List.length_eq_zero_iff.mp hn))
        · exact hle
      refine writesBytewise_of_none hf ?_
      rw [writeBlock_eq, hnone]
      exact if_pos hfit

/-- The empty block at 0x1001 has no address outside program memory, but to write it is
undefined. -/
theorem empty_block_past_end_undefined :
    (∀ k < ([] : List Byte).length, Region.of? ((0x1001 : Word).toNat + k) = some .program) ∧
      writeBlock 0x1001 [] fresh = .error .undefined fresh ∧
      ¬ fresh.WritesBytewise 0x1001 [] := by
  have hu : writeBlock 0x1001 [] fresh = .error .undefined fresh :=
    writeBlock_eq_undefined_iff.mpr ⟨rfl, by decide⟩
  refine ⟨nofun, hu, fun h => ?_⟩
  obtain ⟨m', hok⟩ := h.written_iff.mpr nofun
  rw [hu] at hok
  cases hok

end Chip8.Memory
