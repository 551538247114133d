import Chip8.Word

/-!
# Timers

The delay timer and the sound timer count down to zero, `timerRate` times a
second. A tone sounds as long as the sound timer is above zero.
-/

namespace Chip8

/-- How often the timers count down in a second. -/
abbrev timerRate : Nat := 60

/-- The values of the two timers. -/
@[ext] structure Timers where
  /-- The delay timer. -/
  delay : Byte
  /-- The sound timer. -/
  sound : Byte
deriving DecidableEq

namespace Timers

/-- Both timers at rest. -/
def stopped : Timers := ⟨0, 0⟩

instance : Inhabited Timers := ⟨stopped⟩

/-- One less, but never below zero. -/
def countDown (b : Byte) : Byte := if b = 0 then 0 else b - 1

/-- Counts both timers down. -/
def tick (t : Timers) : Timers := ⟨countDown t.delay, countDown t.sound⟩

/-- Whether the tone sounds. -/
def isSounding (t : Timers) : Bool := t.sound != 0

theorem toNat_countDown (b : Byte) : (countDown b).toNat = b.toNat - 1 := by
  simp only [countDown]
  split
  · next h => simp [h]
  · next h =>
    have : b.toNat ≠ 0 := fun h' => h (BitVec.eq_of_toNat_eq h')
    have := b.isLt
    rw [BitVec.toNat_sub, show (1 : Byte).toNat = 1 from rfl]
    omega

end Timers

end Chip8
