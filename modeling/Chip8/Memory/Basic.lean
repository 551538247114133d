import Chip8.Fault
import Chip8.Memory.Font

/-!
# Memory

Every byte can be read; only program memory can be written, and a block is
written whole or not at all.

* `getElem_overwrite`: a block replaces the bytes it covers and no others.
* `checkWritable_eq_ok_iff`: a block may be written if all of it lies in program
  memory.
-/

namespace Chip8

/-- The contents of memory. -/
@[ext] structure Memory where
  /-- The byte at each address. -/
  bytes : Vector Byte memorySize
deriving DecidableEq

namespace Memory

/-! ## Overwriting bytes -/

/-- Replaces the bytes from index `start` on by those of a list; what would lie
beyond the end is dropped. -/
def overwrite {n : Nat} (bytes : Vector Byte n) (start : Nat) : List Byte → Vector Byte n
  | [] => bytes
  | b :: bs => overwrite (bytes.setIfInBounds start b) (start + 1) bs

theorem getElem_overwrite {n : Nat} (data : List Byte) (bytes : Vector Byte n) (start : Nat)
    {i : Nat} (hi : i < n) :
    (overwrite bytes start data)[i] =
      if h : start ≤ i ∧ i < start + data.length then data[i - start] else bytes[i] := by
  induction data generalizing bytes start with
  | nil => rw [overwrite, dif_neg (by simp only [List.length_nil]; omega)]
  | cons b bs ih =>
    rw [overwrite, ih, Vector.getElem_setIfInBounds]
    by_cases h₁ : start = i
    · subst h₁
      simp [show ¬ start + 1 ≤ start by omega]
    · by_cases h₂ : start + 1 ≤ i ∧ i < start + 1 + bs.length
      · have h₃ : start ≤ i ∧ i < start + (b :: bs).length := by
          simp only [List.length_cons]; omega
        simp only [h₂, h₃, and_self, ↓reduceDIte, List.getElem_cons, show ¬ i - start = 0 by omega]
        congr 1
      · have h₃ : ¬ (start ≤ i ∧ i < start + (b :: bs).length) := by
          simp only [List.length_cons]; omega
        simp only [h₂, h₃, h₁, ↓reduceDIte, ↓reduceIte]

/-- Memory at power-on: the font, and zeros elsewhere. -/
def fresh : Memory := ⟨overwrite (Vector.replicate memorySize 0) fontStart.toNat font⟩

instance : Inhabited Memory := ⟨fresh⟩

/-- Clears memory and puts the font back. -/
def reset (m : Memory) : Memory := ⟨overwrite (m.bytes.map fun _ => 0) fontStart.toNat font⟩

theorem reset_eq_fresh (m : Memory) : m.reset = fresh := by
  simp only [reset, fresh, Vector.map_const']

/-! ## Reading -/

/-- The byte at an address. -/
def read (m : Memory) (a : Word) : Except Fault Byte :=
  if h : a.toNat < memorySize then .ok m.bytes[a.toNat] else .error (.illegalAccess a)

/-- The word whose high byte is at an address and whose low byte follows. -/
def readWord (m : Memory) (a : Word) : Except Fault Word := do
  let hi ← m.read a
  let lo ← m.read (a + 1)
  return Word.ofBytes hi lo

/-- The `n` bytes from an address on. The fault names the first address beyond
memory, or the start if that is beyond already. -/
def slice (m : Memory) (a : Word) (n : Nat) : Except Fault (List Byte) :=
  if a.toNat + n ≤ memorySize then .ok (m.bytes.extract a.toNat (a.toNat + n)).toList
  else .error (.illegalAccess (BitVec.ofNat 16 (max a.toNat memorySize)))

/-- Lengths and indices are numbers of 64 bits, less than this. -/
abbrev indexLimit : Nat := 0x10000000000000000

/-- Reads the `n` bytes from an address on, as `slice` does. It is undefined if the index
past the last byte is too large for a number. -/
def readBlock (a : Word) (n : Nat) : Action Memory (List Byte) := fun m =>
  if a.toNat + n < indexLimit then Action.ofExcept (m.slice a n) m else .error .undefined m

/-! ## Writing -/

/-- Fails with the first of the `n` addresses from `a` on that a program may not
write, or with the last address that a word can hold if that one is beyond it. -/
def checkWritable (a : Word) (n : Nat) : Except Fault Unit :=
  match firstUnwritable a.toNat n with
  | some b => .error (.illegalAccess (BitVec.ofNat 16 (min b 0xFFFF)))
  | none => .ok ()

/-- Puts bytes at an address, undefined if they do not fit into memory. -/
def blit (a : Word) (data : List Byte) : Action Memory Unit := fun m =>
  if a.toNat + data.length ≤ memorySize then .ok () ⟨overwrite m.bytes a.toNat data⟩
  else .error .undefined m

/-- Writes a byte. -/
def write (a : Word) (b : Byte) : Action Memory Unit := do
  Action.ofExcept (checkWritable a 1)
  blit a [b]

/-- Writes bytes from an address on, if a program may write all of them. The
empty block is undefined at addresses past the end of memory. -/
def writeBlock (a : Word) (data : List Byte) : Action Memory Unit := do
  Action.ofExcept (checkWritable a data.length)
  blit a data

/-- Writes a ROM at the start of program memory, if it fits. -/
def loadRom (rom : List Byte) : Action Memory Unit :=
  if rom.length ≤ programCapacity then writeBlock programStart rom
  else Action.ofExcept (.error (.romTooLarge rom.length programCapacity))

/-! ## What may be written -/

theorem checkWritable_eq_ok_iff {a : Word} {n : Nat} :
    checkWritable a n = .ok () ↔ ∀ k < n, isWritable (a.toNat + k) = true := by
  rw [← firstUnwritable_eq_none_iff, checkWritable]
  split <;> simp [*]

end Memory

end Chip8
