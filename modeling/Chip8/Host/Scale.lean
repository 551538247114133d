/-!
# Scales

The sizes at which the picture is shown: a pixel is a square of 1, 2, 4, 8, 16
or 32 points a side. `Scale.parse` reads the number.
-/

namespace Chip8

/-- The size of a pixel on the host. -/
inductive Scale where
  /-- One point. -/
  | x1
  /-- Two points. -/
  | x2
  /-- Four points. -/
  | x4
  /-- Eight points. -/
  | x8
  /-- Sixteen points. -/
  | x16
  /-- Thirty-two points. -/
  | x32
deriving DecidableEq, Repr

/-- A text that names no scale. -/
structure UnsupportedScale where
  /-- The text. -/
  text : String
deriving DecidableEq, Repr

/-- The text shown for an unsupported scale. -/
def UnsupportedScale.message (u : UnsupportedScale) : String :=
  "unsupported scale " ++ u.text ++ ", expected 1, 2, 4, 8, 16 or 32"

namespace Scale

/-- Reads a scale. -/
def parse : String → Except UnsupportedScale Scale
  | "1" => .ok .x1
  | "2" => .ok .x2
  | "4" => .ok .x4
  | "8" => .ok .x8
  | "16" => .ok .x16
  | "32" => .ok .x32
  | text => .error ⟨text⟩

/-- The points a side of a pixel. -/
def factor : Scale → Nat
  | .x1 => 1
  | .x2 => 2
  | .x4 => 4
  | .x8 => 8
  | .x16 => 16
  | .x32 => 32

/-- A scale reads back from its number. -/
theorem parse_toString_factor (s : Scale) : parse (toString s.factor) = .ok s := by
  cases s <;> rfl

end Scale

end Chip8
