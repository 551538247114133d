import Chip8.Host.Scale
import Chip8.Screen

/-!
# Frames

The picture in colour. A frame is written as a portable pixmap: a header with the
size, then three bytes a pixel, row after row.
-/

namespace Chip8

/-- A colour as red, green and blue, eight bits each, in the low 24 bits. -/
abbrev Colour := BitVec 32

namespace Colour

/-- The colour with the given components. -/
def rgb (r g b : Byte) : Colour := (0 : Byte) ++ r ++ g ++ b

/-- The colour of a pixel that is on. -/
def on : Colour := rgb 0 127 255

/-- The colour of a pixel that is off. -/
def off : Colour := rgb 0 0 0

/-- The red, green and blue component. -/
def components (c : Colour) : List Byte :=
  [c.extractLsb' 16 8, c.extractLsb' 8 8, c.extractLsb' 0 8]

theorem components_rgb (r g b : Byte) : (rgb r g b).components = [r, g, b] := by
  simp only [components, rgb, List.cons.injEq, and_true]
  refine ⟨?_, ?_, ?_⟩ <;> ext i hi <;>
    simp only [BitVec.getElem_extractLsb', BitVec.getLsbD_append] <;>
    grind

end Colour

namespace Frame

/-- The colours of a row of pixels, each repeated `factor` times. -/
def row (factor : Nat) (pixels : List Bool) : List Colour :=
  pixels.flatMap fun lit => List.replicate factor (if lit then Colour.on else Colour.off)

/-- The colours of the picture, each pixel a square with sides of `factor`. -/
def pixels (factor : Nat) (s : Screen) : List Colour :=
  (List.range screenHeight).flatMap fun y =>
    (List.replicate factor (row factor (s.row y))).flatten

/-- The header of a pixmap of the picture. -/
def header (factor : Nat) : String :=
  "P6\n" ++ toString (screenWidth * factor) ++ " " ++ toString (screenHeight * factor) ++ "\n255\n"

/-- The pixmap of the picture at a scale. -/
def pixmap (scale : Scale) (s : Screen) : ByteArray :=
  ((pixels scale.factor s).flatMap Colour.components).foldl
    (fun bytes b => bytes.push (UInt8.ofBitVec b)) (header scale.factor).toUTF8

end Frame

end Chip8
