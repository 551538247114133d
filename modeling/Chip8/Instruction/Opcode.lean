import Chip8.Word

/-!
# Fields of an opcode

An opcode is four hexadecimal digits, counted from the most significant one.
`Opcode.digits?` reads any run of them; the five fields that instructions use
are bit slices, each of which is such a run (`digits?_x`, …, `digits?_nnn`).
-/

namespace Chip8.Opcode

/-- The number written by the `len` digits of `op` from digit `first` on, where
digit 1 is the most significant. There is none if the run leaves the four digits,
or if it is empty and stands before the first. -/
def digits? (op : Word) (first len : Nat) : Option Word :=
  if 1 ≤ first ∧ first + len ≤ 5 ∧ 2 ≤ first + len then
    some ((op >>> (4 * (5 - first - len))) &&& BitVec.ofNat 16 ((1 <<< (4 * len)) - 1))
  else none

/-- Digit 2, which selects a register. -/
def x (op : Word) : Byte := (op.extractLsb' 8 4).setWidth 8

/-- Digit 3, which selects a register. -/
def y (op : Word) : Byte := (op.extractLsb' 4 4).setWidth 8

/-- Digit 4, a count. -/
def n (op : Word) : Byte := (op.extractLsb' 0 4).setWidth 8

/-- Digits 3 and 4, a byte. -/
def kk (op : Word) : Byte := op.extractLsb' 0 8

/-- Digits 2 to 4, an address. -/
def nnn (op : Word) : Word := (op.extractLsb' 0 12).setWidth 16

/-! ## The fields as runs of digits -/

variable (op : Word)

theorem toNat_x : (x op).toNat = op.toNat / 256 % 16 := by
  simp only [x, BitVec.toNat_setWidth, BitVec.extractLsb'_toNat, Nat.shiftRight_eq_div_pow]
  omega

theorem toNat_y : (y op).toNat = op.toNat / 16 % 16 := by
  simp only [y, BitVec.toNat_setWidth, BitVec.extractLsb'_toNat, Nat.shiftRight_eq_div_pow]
  omega

theorem toNat_n : (n op).toNat = op.toNat % 16 := by
  simp only [n, BitVec.toNat_setWidth, BitVec.extractLsb'_toNat, Nat.shiftRight_eq_div_pow]
  omega

theorem toNat_kk : (kk op).toNat = op.toNat % 256 := by
  simp only [kk, BitVec.extractLsb'_toNat, Nat.shiftRight_eq_div_pow]
  omega

theorem toNat_nnn : (nnn op).toNat = op.toNat % 4096 := by
  simp only [nnn, BitVec.toNat_setWidth, BitVec.extractLsb'_toNat, Nat.shiftRight_eq_div_pow]
  omega

theorem toNat_x_lt : (x op).toNat < 16 := by
  rw [toNat_x]
  exact Nat.mod_lt _ (by decide)

theorem toNat_y_lt : (y op).toNat < 16 := by
  rw [toNat_y]
  exact Nat.mod_lt _ (by decide)

theorem toNat_n_lt : (n op).toNat < 16 := by
  rw [toNat_n]
  exact Nat.mod_lt _ (by decide)

/-- A run of digits inside the opcode, as arithmetic. -/
theorem toNat_of_digits?_eq_some {first len : Nat} {v : Word} (h : digits? op first len = some v) :
    v.toNat = op.toNat >>> (4 * (5 - first - len)) % (1 <<< (4 * len)) := by
  simp only [digits?] at h
  split at h
  · next hr =>
    obtain rfl := Option.some.inj h
    have hl : (1 <<< (4 * len)) - 1 < 65536 := by
      rw [Nat.one_shiftLeft]
      have := Nat.pow_le_pow_right (show 0 < 2 by decide) (show 4 * len ≤ 16 by omega)
      omega
    rw [BitVec.toNat_and, BitVec.toNat_ofNat, Nat.mod_eq_of_lt hl, Nat.one_shiftLeft,
      Nat.and_two_pow_sub_one_eq_mod, BitVec.toNat_ushiftRight]
  · cases h

/-- A run of digits is determined by its number. -/
theorem digits?_eq_some {first len : Nat} {v w : Word} (h : digits? op first len = some v)
    (hw : w.toNat = op.toNat >>> (4 * (5 - first - len)) % (1 <<< (4 * len))) :
    digits? op first len = some w := by
  rw [h, BitVec.eq_of_toNat_eq ((toNat_of_digits?_eq_some op h).trans hw.symm)]

theorem digits?_x : digits? op 2 1 = some ((x op).setWidth 16) :=
  digits?_eq_some op rfl (by
    simp only [BitVec.toNat_setWidth, toNat_x, Nat.reduceSub, Nat.reduceMul, Nat.reduceShiftLeft,
      Nat.shiftRight_eq_div_pow]
    omega)

theorem digits?_y : digits? op 3 1 = some ((y op).setWidth 16) :=
  digits?_eq_some op rfl (by
    simp only [BitVec.toNat_setWidth, toNat_y, Nat.reduceSub, Nat.reduceMul, Nat.reduceShiftLeft,
      Nat.shiftRight_eq_div_pow]
    omega)

theorem digits?_n : digits? op 4 1 = some ((n op).setWidth 16) :=
  digits?_eq_some op rfl (by
    simp only [BitVec.toNat_setWidth, toNat_n, Nat.reduceSub, Nat.reduceMul, Nat.reduceShiftLeft,
      Nat.shiftRight_eq_div_pow]
    omega)

theorem digits?_kk : digits? op 3 2 = some ((kk op).setWidth 16) :=
  digits?_eq_some op rfl (by
    simp only [BitVec.toNat_setWidth, toNat_kk, Nat.reduceSub, Nat.reduceMul, Nat.reduceShiftLeft,
      Nat.shiftRight_eq_div_pow]
    omega)

theorem digits?_nnn : digits? op 2 3 = some (nnn op) :=
  digits?_eq_some op rfl (by
    simp only [toNat_nnn, Nat.reduceSub, Nat.reduceMul, Nat.reduceShiftLeft,
      Nat.shiftRight_eq_div_pow]
    omega)

end Chip8.Opcode
