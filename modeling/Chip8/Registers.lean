import Chip8.Memory.Region

/-!
# Registers

Sixteen data registers, the program counter and the index register. The last
data register is also the flag: carry, missing borrow or collision.

* `get_set`: setting a register changes the one that the low nibble selects.
* `get_setAll`: up to sixteen values go to the registers from 0 on, and no others change.
-/

namespace Chip8

/-- The number of data registers. -/
abbrev registerCount : Nat := 16

/-- The number of the register that serves as the flag. -/
abbrev flagRegister : Byte := 0xF

/-- The contents of the registers. -/
@[ext] structure Registers where
  /-- The data registers. -/
  data : Vector Byte registerCount
  /-- The program counter, the address of the next instruction. -/
  pc : Word
  /-- The index register, the address for memory instructions. -/
  index : Word
deriving DecidableEq

namespace Registers

/-- The registers at power-on. -/
def fresh : Registers := ⟨Vector.replicate registerCount 0, programStart, 0⟩

instance : Inhabited Registers := ⟨fresh⟩

/-- The value of register `r`. -/
def get (s : Registers) (r : Byte) : Byte := s.data[r.low]

/-- Sets register `r`. -/
def set (s : Registers) (r b : Byte) : Registers := { s with data := s.data.set r.low b }

/-- Adds to register `r`, modulo 256. -/
def add (s : Registers) (r b : Byte) : Registers := s.set r (s.get r + b)

/-- Sets the flag. -/
def setFlag (s : Registers) (b : Bool) : Registers := s.set flagRegister (Byte.ofBool b)

/-- Moves the program counter to an address. -/
def jump (s : Registers) (a : Word) : Registers := { s with pc := a }

/-- Moves the program counter to the next instruction. -/
def advance (s : Registers) : Registers := s.jump (s.pc + 2)

/-- Points the index register at an address. -/
def point (s : Registers) (a : Word) : Registers := { s with index := a }

/-- Sets the registers from 0 on to the values of a list; after the last register
comes the first again. -/
def setAll (s : Registers) (values : List Byte) : Registers :=
  values.zipIdx.foldl (fun s (b, k) => s.set (BitVec.ofNat 8 k) b) s

/-! ## One register after a change -/

theorem get_set (s : Registers) (r q b : Byte) :
    (s.set r b).get q = if r.low = q.low then b else s.get q := by
  simp only [get, set, Fin.getElem_fin, Vector.getElem_set, Fin.ext_iff]

theorem get_set_self (s : Registers) (r b : Byte) : (s.set r b).get r = b := by
  rw [get_set, if_pos rfl]

theorem get_setFlag (s : Registers) (c : Bool) : (s.setFlag c).get flagRegister = Byte.ofBool c :=
  get_set_self s flagRegister _

theorem get_setFlag_of_ne {s : Registers} {c : Bool} {r : Byte} (h : r.low ≠ flagRegister.low) :
    (s.setFlag c).get r = s.get r := by
  rw [setFlag, get_set, if_neg (Ne.symm h)]

@[simp] theorem pc_set (s : Registers) (r b : Byte) : (s.set r b).pc = s.pc := rfl

@[simp] theorem index_set (s : Registers) (r b : Byte) : (s.set r b).index = s.index := rfl

theorem low_eq_of_get_set_ne {s : Registers} {r q b : Byte} (h : (s.set r b).get q ≠ s.get q) :
    q.low = r.low := by
  rw [get_set] at h
  by_cases heq : r.low = q.low
  · exact heq.symm
  · exact absurd (if_neg heq) h

theorem low_eq_of_get_setFlag_ne {s : Registers} {r q b : Byte} {flag : Bool}
    (h : ((s.set r b).setFlag flag).get q ≠ s.get q) : q.low = r.low ∨ q.low = flagRegister.low := by
  by_cases hq : ((s.set r b).setFlag flag).get q = (s.set r b).get q
  · exact .inl (low_eq_of_get_set_ne (hq ▸ h))
  · exact .inr (low_eq_of_get_set_ne hq)

@[simp] theorem get_jump (s : Registers) (a : Word) (r : Byte) : (s.jump a).get r = s.get r := rfl

@[simp] theorem get_point (s : Registers) (a : Word) (r : Byte) : (s.point a).get r = s.get r := rfl

/-! ## Several registers -/

theorem length_take_data (s : Registers) {r : Byte} (h : r.toNat < registerCount) :
    (s.data.toList.take (r.toNat + 1)).length = r.toNat + 1 := by
  rw [List.length_take, Vector.length_toList, Nat.min_eq_left h]

/-- The values from register `k` on, as long as there are registers. -/
theorem get_foldl_set (s : Registers) (r : Byte) (values : List Byte) (k : Nat)
    (h : k + values.length ≤ registerCount) :
    ((values.zipIdx k).foldl (fun s (b, k) => s.set (BitVec.ofNat 8 k) b) s).get r =
      if k ≤ r.low then values[r.low - k]?.getD (s.get r) else s.get r := by
  induction values generalizing s k with
  | nil => simp
  | cons b bs ih =>
    simp only [List.length_cons, registerCount] at h
    have hk : (Byte.low (BitVec.ofNat 8 k)).val = k := by
      rw [Byte.val_low, BitVec.toNat_ofNat]
      omega
    rw [List.zipIdx_cons, List.foldl_cons, ih _ (k + 1) (by simp only [registerCount]; omega)]
    simp only [get_set, Fin.ext_iff, hk]
    rcases Nat.lt_trichotomy k r.low with hlt | heq | hgt
    · rw [if_pos (Nat.succ_le_of_lt hlt), if_pos (Nat.le_of_lt hlt), if_neg (by omega),
        show r.low.val - k = r.low - (k + 1) + 1 by omega, List.getElem?_cons_succ]
    · rw [if_neg (by omega), if_pos heq, if_pos (by omega), ← heq, Nat.sub_self]
      rfl
    · rw [if_neg (by omega), if_neg (by omega), if_neg (by omega)]

theorem get_setAll (s : Registers) (r : Byte) {values : List Byte}
    (h : values.length ≤ registerCount) :
    (s.setAll values).get r = values[r.low.val]?.getD (s.get r) := by
  rw [setAll, get_foldl_set s r values 0 (by omega), if_pos (Nat.zero_le _), Nat.sub_zero]

theorem low_lt_of_get_setAll_ne {s : Registers} {r : Byte} {values : List Byte}
    (h : (s.setAll values).get r ≠ s.get r) : r.low.val < values.length := by
  rcases Nat.lt_or_ge r.low.val values.length with hlt | hge
  · exact hlt
  · have hlen : values.length ≤ registerCount := Nat.le_trans hge (Nat.le_of_lt r.low.isLt)
    rw [get_setAll s r hlen, List.getElem?_eq_none hge] at h
    exact absurd rfl h

/-- The program counter and the index register stay as they are. -/
theorem setAll_eq (s : Registers) (values : List Byte) :
    s.setAll values = { s with data := (s.setAll values).data } := by
  rw [setAll]
  induction values.zipIdx generalizing s with
  | nil => rfl
  | cons v vs ih => exact ih _

theorem pc_setAll (s : Registers) (values : List Byte) : (s.setAll values).pc = s.pc := by
  rw [setAll_eq]

theorem index_setAll (s : Registers) (values : List Byte) : (s.setAll values).index = s.index := by
  rw [setAll_eq]

end Registers

end Chip8
