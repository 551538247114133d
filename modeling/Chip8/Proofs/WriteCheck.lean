import Chip8.Proofs.Memory
import Mathlib.Order.Bounds.Defs

/-!
# Checking a block before it is written

A block is checked address by address, up to the first that programs may not write. As the
addresses that they may write form an interval, the outcome hangs on the two ends of the block
alone. However long the block is, the loop ends at the first address past the end of memory at the
latest, and so before any of its numbers is too large.

* `isLeast_unwritable_iff`: the address found is the least that programs may not write.
* `checkEach_eq`: the loop in numbers of bounded size finds the same address.
* `passed_or_refused_at_first`: the outcome of every check.
-/

namespace Chip8.Memory

variable {a : Word} {n k t : Nat}

/-! ## The first address that programs may not write -/

/-- The addresses of a block that programs may not write. -/
def unwritable (a : Word) (n : Nat) : Set Nat :=
  {t | a.toNat ≤ t ∧ t < a.toNat + n ∧ isWritable t = false}

theorem isLeast_unwritable_iff :
    IsLeast (unwritable a n) t ↔ firstUnwritable a.toNat n = some t := by
  rw [firstUnwritable_eq_some_iff_exists]
  constructor
  · rintro ⟨⟨hle, hlt, hw⟩, hleast⟩
    have ht : a.toNat + (t - a.toNat) = t := Nat.add_sub_cancel' hle
    refine ⟨t - a.toNat, by omega, ht.symm, by rw [ht, hw]; exact Bool.false_ne_true, ?_⟩
    -- an address before `t` that programs may not write would be a lesser one
    intro j hj
    refine Bool.of_not_eq_false fun hw' => ?_
    have hle' : t ≤ a.toNat + j := hleast ⟨Nat.le_add_right _ _, by omega, hw'⟩
    omega
  · rintro ⟨k, hk, rfl, hw, hbefore⟩
    refine ⟨⟨Nat.le_add_right _ _, Nat.add_lt_add_left hk _, Bool.of_not_eq_true hw⟩, ?_⟩
    rintro u ⟨hle, -, hu⟩
    refine Nat.le_of_not_lt fun hlt => ?_
    have hw' := hbefore (u - a.toNat) (by omega)
    rw [Nat.add_sub_cancel' hle, hu] at hw'
    cases hw'

/-- The address in the fault is the least one itself: nothing is cut off it. -/
theorem checkWritable_eq_error_iff_isLeast {b : Word} :
    checkWritable a n = .error (.illegalAccess b) ↔ IsLeast (unwritable a n) b.toNat := by
  rw [checkWritable_eq_error_iff, isLeast_unwritable_iff]
  constructor
  · intro h
    obtain ⟨c, hc, hb⟩ := Option.map_eq_some_iff.mp h
    obtain ⟨b', rfl, hb'⟩ := exists_writeFault_of_firstUnwritable hc
    rw [h] at hb'
    cases hb'
    exact hc
  · intro h
    obtain ⟨b', hb', hf⟩ := exists_writeFault_of_firstUnwritable h
    rwa [BitVec.eq_of_toNat_eq hb'] at hf

/-! ## The loop in numbers of bounded size -/

/-- Checks `n` addresses in turn, from offset `k` on, in numbers of bounded size. An address is
a number of 64 bits, undefined if it is too large for one. Once it is known to lie in memory, it is
cut down to a word to look up its region. A fault names the largest word for an address that is
none. -/
def checkEach (a : Word) (k : Nat) : Nat → Action Memory Unit
  | 0 => pure ()
  | n + 1 =>
    if a.toNat + k < indexLimit then
      if a.toNat + k < memorySize ∧ isWritable (BitVec.ofNat 16 (a.toNat + k)).toNat = true then
        checkEach a (k + 1) n
      else throw (.fault (.illegalAccess (BitVec.ofNat 16 (min (a.toNat + k) 0xFFFF))))
    else throw .undefined

/-- The loop goes on from addresses in memory only, so all that it gets to are words. -/
theorem checkEach_eq (h : a.toNat + k < 0x10000) (m : Memory) :
    checkEach a k n m = match firstUnwritable (a.toNat + k) n with
      | some b => .error (.fault (.illegalAccess (BitVec.ofNat 16 (min b 0xFFFF)))) m
      | none => .ok () m := by
  induction n generalizing k with
  | zero => rfl
  | succ n ih =>
    have hindex : a.toNat + k < indexLimit := Nat.lt_trans h (by decide)
    have hword : (BitVec.ofNat 16 (a.toNat + k)).toNat = a.toNat + k := by
      rw [BitVec.toNat_ofNat, Nat.mod_eq_of_lt h]
    rw [checkEach, if_pos hindex, hword, firstUnwritable]
    by_cases hw : isWritable (a.toNat + k) = true
    · obtain ⟨-, hlt⟩ := isWritable_eq_true_iff.mp hw
      have hnext : a.toNat + (k + 1) < 0x10000 := by omega
      rw [if_pos ⟨hlt, hw⟩, if_pos hw, ih hnext, Nat.add_assoc]
    · rw [if_neg fun hc => hw hc.2, if_neg hw]
      rfl

theorem checkEach_zero_eq (a : Word) (n : Nat) (m : Memory) :
    checkEach a 0 n m = Action.ofExcept (checkWritable a n) m := by
  rw [checkEach_eq a.isLt, Nat.add_zero, checkWritable]
  cases firstUnwritable a.toNat n <;> rfl

/-! ## Every check -/

/-- The check passes the empty blocks and those that lie within 0x200 to 0xFFF. Any other
block is refused for the least of its addresses that programs may not write: this is its start or,
if they may write that, 0x1000. It is never so large that a fault would name another. And the
outcome is the same whatever memory holds, with no number too large on the way. -/
theorem passed_or_refused_at_first (a : Word) (n : Nat) :
    (checkWritable a n = .ok () ↔ n = 0 ∨ 0x200 ≤ a.toNat ∧ a.toNat + n ≤ 0x1000) ∧
    (checkWritable a n = .ok () ∨ ∃ b : Word, checkWritable a n = .error (.illegalAccess b) ∧
      b = (if 0x200 ≤ a.toNat ∧ a.toNat < 0x1000 then 0x1000 else a) ∧
      IsLeast (unwritable a n) b.toNat) ∧
    (firstUnwritable a.toNat n).map (min · 0xFFFF) = firstUnwritable a.toNat n ∧
    ∀ m, checkEach a 0 n m = Action.ofExcept (checkWritable a n) m := by
  refine ⟨checkWritable_eq_ok_iff_writeFault.trans writeFault_eq_none_iff, ?_, ?_,
    checkEach_zero_eq a n⟩
  · cases hf : writeFault a n with
    | none => exact .inl (checkWritable_eq_ok_iff_writeFault.mpr hf)
    | some f =>
      have hcheck := checkWritable_eq_error_iff.mpr hf
      rcases writeFault_eq_some_iff.mp hf with ⟨rfl, -, hout⟩ | ⟨rfl, hin, hlt, -⟩
      · refine .inr ⟨a, hcheck, ?_, checkWritable_eq_error_iff_isLeast.mp hcheck⟩
        rw [if_neg (by omega)]
      · refine .inr ⟨0x1000, hcheck, ?_, checkWritable_eq_error_iff_isLeast.mp hcheck⟩
        rw [if_pos ⟨hin, hlt⟩]
  · cases hc : firstUnwritable a.toNat n with
    | none => rfl
    | some c =>
      have hle : c ≤ 0xFFFF := Nat.le_of_lt_succ (lt_of_firstUnwritable_eq_some hc)
      rw [Option.map_some, Nat.min_eq_left hle]

-- the longest block, from the last address of memory on
example : checkWritable 0xFFF 0xFFFFFFFFFFFFFFFF = .error (.illegalAccess 0x1000) := rfl

end Chip8.Memory
