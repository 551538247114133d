/-!
# Numerals

The texts of numbers in messages, in the disassembly and in the log. A
hexadecimal numeral has upper-case digits, as many as it needs and no fewer
than the width asked for; `Numeral.prefixed` puts `0x` before it. A decimal
numeral has no leading zero.

* `hexValue_hexDigits`: a hexadecimal numeral reads back as its number, whatever
  the width, so equal numerals are of equal numbers (`hex_inj`).
-/

namespace Chip8.Numeral

/-- The upper-case digit for a number below 16. -/
def hexChar (d : Nat) : Char := (Nat.digitChar d).toUpper

/-- The hexadecimal digits of `n`, padded with zeros to at least `width`. -/
def hexDigits (width n : Nat) : List Char :=
  ((Nat.toDigits 16 n).map Char.toUpper).leftpad width '0'

/-- The hexadecimal numeral of `n` with at least `width` digits. -/
def hex (width n : Nat) : String := String.ofList (hexDigits width n)

/-- The hexadecimal numeral of `n` with at least `width` digits, after `0x`. -/
def prefixed (width n : Nat) : String := "0x" ++ hex width n

/-- The decimal numeral of `n`. -/
def decimal (n : Nat) : String := String.ofList (Nat.toDigits 10 n)

/-! ## Digits -/

theorem toList_hex (width n : Nat) : (hex width n).toList = hexDigits width n :=
  String.toList_ofList

theorem toList_prefixed (width n : Nat) :
    (prefixed width n).toList = '0' :: 'x' :: hexDigits width n := by
  rw [prefixed, String.toList_append, toList_hex]
  rfl

theorem exists_hexChar_of_mem_toDigits {n : Nat} {c : Char} (hc : c ∈ Nat.toDigits 16 n) :
    ∃ d < 16, c.toUpper = hexChar d := by
  induction n using Nat.strongRecOn with
  | ind n ih =>
    rw [Nat.toDigits_eq_if (by decide)] at hc
    split at hc
    · next h =>
      obtain rfl := List.mem_singleton.mp hc
      exact ⟨n, h, rfl⟩
    · next h =>
      rcases List.mem_append.mp hc with hc | hc
      · exact ih _ (Nat.div_lt_self (by omega) (by decide)) hc
      · obtain rfl := List.mem_singleton.mp hc
        exact ⟨n % 16, Nat.mod_lt n (by decide), rfl⟩

theorem exists_hexChar_of_mem {width n : Nat} {c : Char} (hc : c ∈ hexDigits width n) :
    ∃ d < 16, c = hexChar d := by
  rcases List.mem_append.mp hc with hc | hc
  · exact ⟨0, by decide, List.eq_of_mem_replicate hc⟩
  · obtain ⟨c', hc', rfl⟩ := List.mem_map.mp hc
    exact exists_hexChar_of_mem_toDigits hc'

/-! ## Reading back -/

/-- The number that an upper-case hexadecimal digit stands for. -/
def hexDigitValue (c : Char) : Nat := if c.isDigit then c.toNat - 48 else c.toNat - 55

/-- The number that a string of upper-case hexadecimal digits stands for. -/
def hexValue (cs : List Char) : Nat := cs.foldl (fun n c => 16 * n + hexDigitValue c) 0

theorem hexDigitValue_hexChar : ∀ d < 16, hexDigitValue (hexChar d) = d := by decide

theorem hexValue_append_singleton (cs : List Char) (c : Char) :
    hexValue (cs ++ [c]) = 16 * hexValue cs + hexDigitValue c := by
  simp [hexValue]

theorem hexValue_replicate_append (k : Nat) (cs : List Char) :
    hexValue (List.replicate k '0' ++ cs) = hexValue cs := by
  induction k with
  | zero => rfl
  | succ k ih =>
    rw [List.replicate_succ, List.cons_append, ← ih]
    rfl

theorem hexValue_map_toUpper_toDigits (n : Nat) :
    hexValue ((Nat.toDigits 16 n).map Char.toUpper) = n := by
  induction n using Nat.strongRecOn with
  | ind n ih =>
    rw [Nat.toDigits_eq_if (by decide)]
    split
    · next h => exact (Nat.zero_add _).trans (hexDigitValue_hexChar n h)
    · next h =>
      rw [List.map_append, List.map_singleton, hexValue_append_singleton, ih _ (by omega)]
      have := hexDigitValue_hexChar (n % 16) (by omega)
      rw [hexChar] at this
      omega

/-- A hexadecimal numeral reads back as its number. -/
theorem hexValue_hexDigits (width n : Nat) : hexValue (hexDigits width n) = n := by
  rw [hexDigits, List.leftpad, hexValue_replicate_append, hexValue_map_toUpper_toDigits]

theorem hexDigits_inj {w w' m n : Nat} (h : hexDigits w m = hexDigits w' n) : m = n := by
  rw [← hexValue_hexDigits w m, h, hexValue_hexDigits]

theorem hex_inj {w w' m n : Nat} (h : hex w m = hex w' n) : m = n :=
  hexDigits_inj (String.ofList_injective h)

example : prefixed 4 0xE0 = "0x00E0" := by decide

end Chip8.Numeral
