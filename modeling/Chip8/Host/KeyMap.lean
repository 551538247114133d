import Chip8.Keypad

/-!
# The keys of the host

The keypad is laid out as a block of four by four keys, and so are the keys of
the host that stand for it.

    1 2 3 C      1 2 3 4
    4 5 6 D      Q W E R
    7 8 9 E      A S D F
    A 0 B F      Z X C V
-/

namespace Chip8

/-- A key of the host. -/
inductive HostKey where
  /-- The digit 1. -/
  | one
  /-- The digit 2. -/
  | two
  /-- The digit 3. -/
  | three
  /-- The digit 4. -/
  | four
  /-- The letter Q. -/
  | q
  /-- The letter W. -/
  | w
  /-- The letter E. -/
  | e
  /-- The letter R. -/
  | r
  /-- The letter A. -/
  | a
  /-- The letter S. -/
  | s
  /-- The letter D. -/
  | d
  /-- The letter F. -/
  | f
  /-- The letter Z. -/
  | z
  /-- The letter X. -/
  | x
  /-- The letter C. -/
  | c
  /-- The letter V. -/
  | v
deriving DecidableEq, Repr

namespace HostKey

/-- The name of a key. -/
def name : HostKey → String
  | .one => "Key1"
  | .two => "Key2"
  | .three => "Key3"
  | .four => "Key4"
  | .q => "Q"
  | .w => "W"
  | .e => "E"
  | .r => "R"
  | .a => "A"
  | .s => "S"
  | .d => "D"
  | .f => "F"
  | .z => "Z"
  | .x => "X"
  | .c => "C"
  | .v => "V"

end HostKey

/-- The key of the keypad that each key of the host stands for, in reading order. -/
def keyMap : List (HostKey × Byte) := [
  (.one, 0x1), (.two, 0x2), (.three, 0x3), (.four, 0xC),
  (.q, 0x4), (.w, 0x5), (.e, 0x6), (.r, 0xD),
  (.a, 0x7), (.s, 0x8), (.d, 0x9), (.f, 0xE),
  (.z, 0xA), (.x, 0x0), (.c, 0xB), (.v, 0xF)]

/-- Every key of the keypad has one key of the host. -/
theorem keyMap_perm : (keyMap.map (·.2.toNat)).Perm (List.range keyCount) := by decide

end Chip8
