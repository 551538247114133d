/-!
# Bytes and words

The machine works on bytes and on 16-bit words. Registers, keys and glyphs are
numbered by a byte of which only the low nibble counts (`Byte.low`), so every
byte names one of sixteen.
-/

namespace Chip8

/-- Eight bits: the contents of a memory cell, of a data register or of a timer. -/
abbrev Byte := BitVec 8

/-- Sixteen bits: an address or an opcode. -/
abbrev Word := BitVec 16

/-- The low nibble. -/
def Byte.low (b : Byte) : Fin 16 := ⟨b.toNat % 16, Nat.mod_lt _ (by decide)⟩

/-- A truth value as a byte: 1 or 0. -/
def Byte.ofBool (b : Bool) : Byte := if b then 1 else 0

/-- The word with the high byte `hi` and the low byte `lo`. -/
def Word.ofBytes (hi lo : Byte) : Word := hi ++ lo

@[simp] theorem Byte.val_low (b : Byte) : (Byte.low b).val = b.toNat % 16 := rfl

theorem Byte.low_of_lt {b : Byte} (h : b.toNat < 16) : (Byte.low b).val = b.toNat :=
  Nat.mod_eq_of_lt h

theorem Byte.toNat_and_low (b : Byte) : (b &&& 0xF).toNat = b.low := by
  rw [BitVec.toNat_and]
  exact Nat.and_two_pow_sub_one_eq_mod b.toNat 4

theorem Byte.low_and_low (b : Byte) : (b &&& 0xF).low = b.low :=
  Fin.ext (by rw [val_low, toNat_and_low, val_low, Nat.mod_mod])

@[simp] theorem Byte.ofBool_true : Byte.ofBool true = 1 := rfl

@[simp] theorem Byte.ofBool_false : Byte.ofBool false = 0 := rfl

theorem Word.toNat_ofBytes (hi lo : Byte) :
    (Word.ofBytes hi lo).toNat = 256 * hi.toNat + lo.toNat := by
  simp only [Word.ofBytes, BitVec.toNat_append]
  rw [Nat.shiftLeft_eq, Nat.mul_comm, ← Nat.two_pow_add_eq_or_of_lt lo.isLt]

end Chip8
