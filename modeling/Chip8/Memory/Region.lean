import Chip8.Word

/-!
# Regions of memory

The 4096 bytes of memory fall into three regions: the font, the rest of the
interpreter area below `programStart`, and program memory above it, the only one
that programs write.

* `isWritable_eq_true_iff`: the addresses that programs write form an interval.
* `firstUnwritable_eq_none_iff`: a block has no first address that programs may not
  write if they may write all of it.
* `firstUnwritable_eq_some_iff_exists`: the address found is the first.
-/

namespace Chip8

/-- The number of bytes of memory. -/
abbrev memorySize : Nat := 4096

/-- The first address of program memory, where programs are loaded. -/
abbrev programStart : Word := 0x200

/-- The number of bytes of program memory. -/
abbrev programCapacity : Nat := 3584

/-- The address of the glyph for 0. -/
abbrev fontStart : Word := 0x050

/-- The number of bytes of a glyph. -/
abbrev glyphSize : Nat := 5

/-- The parts of memory. -/
inductive Region where
  /-- Memory reserved for the interpreter, the font apart. -/
  | interpreter
  /-- The glyphs of the sixteen digits. -/
  | font
  /-- Program memory. -/
  | program
deriving DecidableEq, Repr

namespace Region

/-- The region of an address, if the address is one of memory. -/
def of? (a : Nat) : Option Region :=
  if fontStart.toNat ≤ a ∧ a < fontStart.toNat + 16 * glyphSize then some .font
  else if a < programStart.toNat then some .interpreter
  else if a < memorySize then some .program
  else none

/-- Whether programs may write the region. -/
def isWritable : Region → Bool
  | .program => true
  | .interpreter | .font => false

end Region

/-- Whether a program may write the address. -/
def isWritable (a : Nat) : Bool := (Region.of? a).any (·.isWritable)

theorem isWritable_eq_true_iff {a : Nat} : isWritable a = true ↔ 0x200 ≤ a ∧ a < 0x1000 := by
  simp only [isWritable, Region.of?, fontStart, glyphSize, programStart, memorySize,
    BitVec.reduceToNat]
  split
  · simp [Region.isWritable]; omega
  split
  · simp [Region.isWritable]; omega
  split
  · simp [Region.isWritable]; omega
  · simp; omega

theorem isWritable_eq_true_iff_of? {a : Nat} :
    isWritable a = true ↔ Region.of? a = some .program := by
  rw [isWritable]
  cases Region.of? a with
  | none => simp
  | some r => cases r <;> simp [Region.isWritable]

/-- The first of the `n` addresses from `a` on that a program may not write. -/
def firstUnwritable (a : Nat) : Nat → Option Nat
  | 0 => none
  | n + 1 => if isWritable a then firstUnwritable (a + 1) n else some a

theorem firstUnwritable_eq_none_iff {a n : Nat} :
    firstUnwritable a n = none ↔ ∀ k < n, isWritable (a + k) = true := by
  induction n generalizing a with
  | zero => simp [firstUnwritable]
  | succ n ih =>
    rw [Nat.forall_lt_succ_left', firstUnwritable]
    split
    · next h => simp only [ih, Nat.add_zero, h, true_and, Nat.add_assoc, Nat.add_comm 1]
    · next h => simp [h]

theorem firstUnwritable_eq_some_iff_exists {a n b : Nat} :
    firstUnwritable a n = some b ↔
      ∃ k < n, b = a + k ∧ ¬ isWritable (a + k) = true ∧ ∀ j < k, isWritable (a + j) = true := by
  induction n generalizing a with
  | zero => simp [firstUnwritable]
  | succ n ih =>
    rw [Nat.exists_lt_succ_left, firstUnwritable]
    split
    · next h =>
      simp only [ih, Nat.forall_lt_succ_left', Nat.add_zero, h, not_true, false_and, and_false,
        false_or, true_and, Nat.add_assoc, Nat.add_comm 1]
    · next h =>
      simp only [Nat.forall_lt_succ_left', Nat.add_zero, h, Bool.false_eq_true, false_and,
        and_false, exists_false, or_false, not_false_eq_true, Nat.not_lt_zero, false_imp_iff,
        implies_true, and_true, Option.some.injEq, eq_comm]

end Chip8
