import Chip8.Fault

/-!
# The keypad

Sixteen keys, each up or down. Only key events change it.
-/

namespace Chip8

/-- The number of keys. -/
abbrev keyCount : Nat := 16

/-- Which keys are down. -/
@[ext] structure Keypad where
  /-- Whether each key is down. -/
  keys : Vector Bool keyCount
deriving DecidableEq

namespace Keypad

/-- All keys up. -/
def released : Keypad := ⟨Vector.replicate keyCount false⟩

instance : Inhabited Keypad := ⟨released⟩

/-- Records that a key went down or up. -/
def record (key : Byte) (down : Bool) : Action Keypad Unit := fun k =>
  if h : key.toNat < keyCount then .ok () ⟨k.keys.set key.toNat down⟩
  else .error (.fault (.invalidKey key)) k

/-- Whether the key that the low nibble names is down. -/
def isDown (k : Keypad) (b : Byte) : Bool := k.keys[b.low]

/-- The keys that are down, in ascending order. -/
def pressed (k : Keypad) : List (Fin keyCount) := (List.finRange keyCount).filter (k.keys[·])

theorem mem_pressed {k : Keypad} {i : Fin keyCount} : i ∈ k.pressed ↔ k.keys[i] = true := by
  simp [pressed]

end Keypad

end Chip8
