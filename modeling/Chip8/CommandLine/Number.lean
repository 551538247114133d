import Chip8.Numeral

/-!
# Numbers on the command line

A number is written in decimal digits after an optional sign. The reader goes
from left to right and reports the first problem that it meets: a character that
is no digit, or the digit that takes the number out of its range.
-/

namespace Chip8.CommandLine

/-- Why a text is refused as a number. -/
inductive NumberError where
  /-- There is no text. -/
  | empty
  /-- A character is no digit, or there is only a sign. -/
  | invalidDigit
  /-- The number exceeds the greatest one representable. -/
  | tooLarge
  /-- The number lies below the least one representable. -/
  | tooSmall
  /-- The number lies outside 0 to `greatest`. -/
  | outOfRange (number : Int) (greatest : Nat)
deriving DecidableEq, Repr

/-- The text shown for a number that is refused. -/
def NumberError.message : NumberError → String
  | .empty => "cannot parse integer from empty string"
  | .invalidDigit => "invalid digit found in string"
  | .tooLarge => "number too large to fit in target type"
  | .tooSmall => "number too small to fit in target type"
  | .outOfRange n greatest => toString n ++ " is not in 0..=" ++ Numeral.decimal greatest

/-- The value of a decimal digit. -/
def digit? (c : Char) : Option Nat := if c.isDigit then some (c.toNat - 48) else none

/-- Reads digits after the number `n`, and reports `excess` where the number
exceeds `greatest`. -/
def readDigits (greatest : Nat) (excess : NumberError) (n : Nat) :
    List Char → Except NumberError Nat
  | [] => .ok n
  | c :: cs =>
    match digit? c with
    | none => .error .invalidDigit
    | some d =>
      if 10 * n + d ≤ greatest then readDigits greatest excess (10 * n + d) cs
      else .error excess

/-- Reads digits, at least one. -/
def readMagnitude (greatest : Nat) (excess : NumberError) :
    List Char → Except NumberError Nat
  | [] => .error .invalidDigit
  | cs => readDigits greatest excess 0 cs

/-- Reads a number of up to 64 bits. It may have a plus sign. -/
def readUnsigned (text : String) : Except NumberError Nat :=
  match text.toList with
  | [] => .error .empty
  | '+' :: cs => readMagnitude 0xFFFFFFFFFFFFFFFF .tooLarge cs
  | cs => readMagnitude 0xFFFFFFFFFFFFFFFF .tooLarge cs

/-- Reads a number of 63 bits and a sign. -/
def readSigned (text : String) : Except NumberError Int :=
  match text.toList with
  | [] => .error .empty
  | '+' :: cs => (readMagnitude 0x7FFFFFFFFFFFFFFF .tooLarge cs).map Int.ofNat
  | '-' :: cs => (readMagnitude 0x8000000000000000 .tooSmall cs).map fun n => -Int.ofNat n
  | cs => (readMagnitude 0x7FFFFFFFFFFFFFFF .tooLarge cs).map Int.ofNat

/-- Reads a signed number that has to lie between 0 and `greatest`. -/
def readUpTo (greatest : Nat) (text : String) : Except NumberError Nat := do
  let n ← readSigned text
  if 0 ≤ n ∧ n ≤ greatest then return n.toNat
  throw (.outOfRange n greatest)

theorem readDigits_le {greatest n m : Nat} {excess : NumberError} {cs : List Char}
    (hn : n ≤ greatest) (h : readDigits greatest excess n cs = .ok m) : m ≤ greatest := by
  induction cs generalizing n with
  | nil =>
    cases h
    exact hn
  | cons c cs ih =>
    simp only [readDigits] at h
    split at h
    · cases h
    · split at h
      · next hle => exact ih hle h
      · cases h

end Chip8.CommandLine
