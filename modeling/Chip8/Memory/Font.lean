import Chip8.Memory.Region

/-!
# The font

Each of the sixteen hexadecimal digits has a glyph of five rows, four pixels
wide, in memory from `fontStart` on.
-/

namespace Chip8

/-- The glyphs of the digits 0 to F, row by row. -/
def font : List Byte := [
  0xF0, 0x90, 0x90, 0x90, 0xF0,
  0x20, 0x60, 0x20, 0x20, 0x70,
  0xF0, 0x10, 0xF0, 0x80, 0xF0,
  0xF0, 0x10, 0xF0, 0x10, 0xF0,
  0x90, 0x90, 0xF0, 0x10, 0x10,
  0xF0, 0x80, 0xF0, 0x10, 0xF0,
  0xF0, 0x80, 0xF0, 0x90, 0xF0,
  0xF0, 0x10, 0x20, 0x40, 0x40,
  0xF0, 0x90, 0xF0, 0x90, 0xF0,
  0xF0, 0x90, 0xF0, 0x10, 0xF0,
  0xF0, 0x90, 0xF0, 0x90, 0x90,
  0xE0, 0x90, 0xE0, 0x90, 0xE0,
  0xF0, 0x80, 0x80, 0x80, 0xF0,
  0xE0, 0x90, 0x90, 0x90, 0xE0,
  0xF0, 0x80, 0xF0, 0x80, 0xF0,
  0xF0, 0x80, 0xF0, 0x80, 0x80]

theorem length_font : font.length = 16 * glyphSize := rfl

/-- The glyph of the digit that the low nibble names. -/
def glyph (digit : Byte) : List Byte := (font.drop (glyphSize * digit.low)).take glyphSize

/-- The address of that glyph. -/
def glyphAddress (digit : Byte) : Word := fontStart + BitVec.ofNat 16 (glyphSize * digit.low)

theorem toNat_glyphAddress (digit : Byte) :
    (glyphAddress digit).toNat = 0x50 + 5 * (digit.toNat % 16) := by
  simp only [glyphAddress, fontStart, glyphSize, BitVec.toNat_add, BitVec.toNat_ofNat,
    BitVec.reduceToNat, Byte.val_low]
  omega

end Chip8
