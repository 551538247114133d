import Chip8.Instruction.Assembly
import Mathlib.Algebra.Group.Nat.Defs

/-!
# Reading assembly text

The text of an instruction can be read back. The mnemonic ends at the first space, a comma and a
space stand between operands and nowhere else, and the first characters of an operand tell its kind:
a byte has two digits after `0x` and an address more. A mnemonic stands for several instructions,
which differ in the kinds of their operands.

* `Operand.read_text`: the text of an operand reads back as the operand.
* `mnemonicOf_text`: the text of an instruction up to its first space is the mnemonic.
* `read?_text`: the text of an instruction reads back as the instruction, so no two instructions
  have the same text (`text_injective`).
-/

namespace Chip8

open Numeral

/-! ## Operands -/

/-- A hexadecimal numeral is as wide as was asked for, unless its number needs more digits. -/
theorem Numeral.length_hexDigits_le_iff {width n k : Nat} (hk : 0 < k) :
    (hexDigits width n).length ≤ k ↔ width ≤ k ∧ n < 16 ^ k := by
  rw [hexDigits, List.length_leftpad, List.length_map, Nat.max_le,
    Nat.length_toDigits_le_iff (by decide) hk]

theorem toList_registerName (r : Byte) : (registerName r).toList = 'V' :: hexDigits 1 r.toNat := by
  rw [registerName, String.toList_append, toList_hex]
  rfl

namespace Operand

/-- The operand that a text stands for. -/
def read : List Char → Operand
  | ['I'] => .index
  | ['[', 'I', ']'] => .indirect
  | ['D', 'T'] => .delay
  | ['S', 'T'] => .sound
  | ['K'] => .key
  | ['F'] => .glyph
  | ['B'] => .decimal
  | 'V' :: ds => .register (BitVec.ofNat 8 (hexValue ds))
  | '0' :: 'x' :: ds =>
    if ds.length ≤ 2 then .byte (BitVec.ofNat 8 (hexValue ds))
    else .address (BitVec.ofNat 16 (hexValue ds))
  | ds => .count (BitVec.ofNat 8 (Nat.ofDigitChars 10 ds 0))

theorem isDigit_of_mem_decimal {n : Nat} : ∀ c ∈ Nat.toDigits 10 n, c.isDigit = true := fun _ =>
  Nat.isDigit_of_mem_toDigits (by decide) (by decide)

theorem read_of_isDigit {ds : List Char} (h : ∀ c ∈ ds, c.isDigit = true) :
    read ds = .count (BitVec.ofNat 8 (Nat.ofDigitChars 10 ds 0)) := by
  rw [read.eq_def]
  split
  case h_10 => rfl
  all_goals simp at h

theorem read_text (o : Operand) : read o.text.toList = o := by
  cases o with
  | register r =>
    rw [text, toList_registerName]
    show Operand.register (BitVec.ofNat 8 (hexValue (hexDigits 1 r.toNat))) = _
    rw [hexValue_hexDigits, BitVec.ofNat_toNat, BitVec.setWidth_eq]
  | byte b =>
    have hl : (hexDigits 2 b.toNat).length ≤ 2 :=
      (length_hexDigits_le_iff (by decide)).mpr ⟨Nat.le_refl 2, b.isLt⟩
    rw [text, toList_prefixed]
    show (if _ then Operand.byte _ else _) = _
    rw [if_pos hl, hexValue_hexDigits, BitVec.ofNat_toNat, BitVec.setWidth_eq]
  | address a =>
    -- at least three digits, which no byte has
    have hl : ¬ (hexDigits 3 a.toNat).length ≤ 2 := fun h =>
      absurd ((length_hexDigits_le_iff (by decide)).mp h).1 (by decide)
    rw [text, toList_prefixed]
    show (if _ then Operand.byte _ else _) = _
    rw [if_neg hl, hexValue_hexDigits, BitVec.ofNat_toNat, BitVec.setWidth_eq]
  | count n =>
    rw [text, Numeral.decimal, String.toList_ofList, read_of_isDigit isDigit_of_mem_decimal,
      Nat.ofDigitChars_toDigits (by decide) (by decide), BitVec.ofNat_toNat, BitVec.setWidth_eq]
  | _ => rfl

theorem ne_of_mem_hexDigits {width n : Nat} : ∀ c ∈ hexDigits width n, c ≠ ',' ∧ c ≠ ' ' := by
  intro c hc
  obtain ⟨d, hd, rfl⟩ := exists_hexChar_of_mem hc
  have h : ∀ d < 16, hexChar d ≠ ',' ∧ hexChar d ≠ ' ' := by decide
  exact h d hd

/-- Neither a comma nor a space stands in the text of an operand. -/
theorem ne_of_mem_text (o : Operand) : ∀ c ∈ o.text.toList, c ≠ ',' ∧ c ≠ ' ' := by
  cases o with
  | register r =>
    rw [text, toList_registerName, List.forall_mem_cons]
    exact ⟨by decide, ne_of_mem_hexDigits⟩
  | byte | address =>
    rw [text, toList_prefixed, List.forall_mem_cons, List.forall_mem_cons]
    exact ⟨by decide, by decide, ne_of_mem_hexDigits⟩
  | count n =>
    rw [text, Numeral.decimal, String.toList_ofList]
    intro c hc
    have hd := isDigit_of_mem_decimal c hc
    constructor <;>
    · rintro rfl
      exact absurd hd (by decide)
  | _ => simp [text]

end Operand

/-! ## Lines -/

namespace Instruction

/-- The instruction with a mnemonic and some operands, if there is one. -/
def ofParts? : String → List Operand → Option Instruction
  | "CLS", [] => some .clear
  | "RET", [] => some .ret
  | "SYS", [.address a] => some (.sys a)
  | "JP", [.address a] => some (.jump a)
  | "CALL", [.address a] => some (.call a)
  | "SE", [.register x, .byte b] => some (.skipEqByte x b)
  | "SNE", [.register x, .byte b] => some (.skipNeByte x b)
  | "SE", [.register x, .register y] => some (.skipEq x y)
  | "LD", [.register x, .byte b] => some (.loadByte x b)
  | "ADD", [.register x, .byte b] => some (.addByte x b)
  | "LD", [.register x, .register y] => some (.copy x y)
  | "OR", [.register x, .register y] => some (.or x y)
  | "AND", [.register x, .register y] => some (.and x y)
  | "XOR", [.register x, .register y] => some (.xor x y)
  | "ADD", [.register x, .register y] => some (.add x y)
  | "SUB", [.register x, .register y] => some (.sub x y)
  | "SHR", [.register x] => some (.shiftRight x)
  | "SUBN", [.register x, .register y] => some (.subFrom x y)
  | "SHL", [.register x] => some (.shiftLeft x)
  | "SNE", [.register x, .register y] => some (.skipNe x y)
  | "LD", [.index, .address a] => some (.setIndex a)
  | "JP", [.register 0, .address a] => some (.jumpOffset a)
  | "RND", [.register x, .byte b] => some (.random x b)
  | "DRW", [.register x, .register y, .count n] => some (.draw x y n)
  | "SKP", [.register x] => some (.skipPressed x)
  | "SKNP", [.register x] => some (.skipReleased x)
  | "LD", [.register x, .delay] => some (.readDelay x)
  | "LD", [.register x, .key] => some (.awaitKey x)
  | "LD", [.delay, .register x] => some (.setDelay x)
  | "LD", [.sound, .register x] => some (.setSound x)
  | "ADD", [.index, .register x] => some (.addIndex x)
  | "LD", [.glyph, .register x] => some (.pointGlyph x)
  | "LD", [.decimal, .register x] => some (.storeDecimal x)
  | "LD", [.indirect, .register x] => some (.storeRegisters x)
  | "LD", [.register x, .indirect] => some (.loadRegisters x)
  | _, _ => none

theorem ofParts?_parts (i : Instruction) : ofParts? i.mnemonic i.operands = some i := by
  cases i <;> rfl

/-- The mnemonic in a line: what stands before the first space. -/
def mnemonicOf (line : List Char) : List Char := line.takeWhile (· ≠ ' ')

/-- The operands in a line: what stands between commas after the first space, less the spaces after
the commas. -/
def operandsOf (line : List Char) : List (List Char) :=
  match line.dropWhile (· ≠ ' ') with
  | [] => []
  | _ :: rest => (rest.splitOn ',').map (·.dropWhile (· = ' '))

/-- The instruction that a line stands for, if there is one. -/
def read? (line : String) : Option Instruction :=
  ofParts? (String.ofList (mnemonicOf line.toList)) ((operandsOf line.toList).map Operand.read)

theorem ne_space_of_mem_mnemonic (i : Instruction) :
    ∀ c ∈ i.mnemonic.toList, decide (c ≠ ' ') = true := by
  cases i <;> simp [mnemonic]

/-- What stands after the mnemonic. -/
def tail (i : Instruction) : List Char :=
  match i.operands.map (·.text.toList) with
  | [] => []
  | ts => ' ' :: [',', ' '].intercalate ts

theorem toList_text (i : Instruction) : i.text.toList = i.mnemonic.toList ++ i.tail := by
  rw [text, tail]
  cases i.operands with
  | nil => exact (List.append_nil _).symm
  | cons o os =>
    simp only [String.toList_append, String.toList_intercalate, List.map_map, List.append_assoc]
    rfl

/-- The part of a text before its first space is the mnemonic. -/
theorem mnemonicOf_text (i : Instruction) : mnemonicOf i.text.toList = i.mnemonic.toList := by
  rw [mnemonicOf, toList_text, List.takeWhile_append_of_pos i.ne_space_of_mem_mnemonic,
    tail]
  split <;> exact List.append_nil _

theorem dropWhile_text (i : Instruction) : i.text.toList.dropWhile (· ≠ ' ') = i.tail := by
  rw [toList_text, List.dropWhile_append_of_pos i.ne_space_of_mem_mnemonic, tail]
  split <;> rfl

/-- A comma and a space between texts are a comma, and a space before each text but the first. -/
theorem intercalate_comma_space (t : List Char) (ts : List (List Char)) :
    [',', ' '].intercalate (t :: ts) = [','].intercalate (t :: ts.map (' ' :: ·)) := by
  induction ts generalizing t with
  | nil => rfl
  | cons u ts ih =>
    rw [List.intercalate_cons_cons, ih, List.map_cons, List.intercalate_cons_cons]
    cases ts <;> simp

theorem dropWhile_eq_self_of_ne {u : List Char} (h : ∀ c ∈ u, c ≠ ' ') :
    u.dropWhile (· = ' ') = u := by
  cases u with
  | nil => rfl
  | cons c u =>
    have hc : decide (c = ' ') = false := decide_eq_false (h c List.mem_cons_self)
    rw [List.dropWhile_cons, hc, if_neg Bool.false_ne_true]

/-- Texts without commas and spaces are read back from where they stand between commas. -/
theorem splitOn_intercalate_comma_space {t : List Char} {ts : List (List Char)}
    (h : ∀ u ∈ t :: ts, ∀ c ∈ u, c ≠ ',' ∧ c ≠ ' ') :
    (([',', ' '].intercalate (t :: ts)).splitOn ',').map (·.dropWhile (· = ' ')) = t :: ts := by
  have hcomma : ∀ u ∈ t :: ts.map (' ' :: ·), ',' ∉ u := by
    intro u hu hc
    rcases List.mem_cons.mp hu with rfl | hu
    · exact (h u List.mem_cons_self ',' hc).1 rfl
    · obtain ⟨v, hv, rfl⟩ := List.mem_map.mp hu
      rcases List.mem_cons.mp hc with hc | hc
      · exact absurd hc (by decide)
      · exact (h v (List.mem_cons_of_mem t hv) ',' hc).1 rfl
  have hdrop : ∀ u ∈ t :: ts, u.dropWhile (· = ' ') = u := fun u hu =>
    dropWhile_eq_self_of_ne fun c hc => (h u hu c hc).2
  rw [intercalate_comma_space, List.splitOn_intercalate ',' hcomma (List.cons_ne_nil _ _)]
  rw [List.forall_mem_cons] at hdrop
  rw [List.map_cons, List.map_map, hdrop.1]
  refine congrArg _ ((List.map_congr_left fun u hu => ?_).trans (List.map_id ts))
  rw [Function.comp_apply, List.dropWhile_cons, if_pos (by decide)]
  exact hdrop.2 u hu

theorem operandsOf_text (i : Instruction) :
    operandsOf i.text.toList = i.operands.map (·.text.toList) := by
  have hmem : ∀ t ∈ i.operands.map (·.text.toList), ∀ c ∈ t, c ≠ ',' ∧ c ≠ ' ' := by
    intro t ht
    obtain ⟨o, -, rfl⟩ := List.mem_map.mp ht
    exact o.ne_of_mem_text
  rw [operandsOf, dropWhile_text, tail]
  generalize i.operands.map (·.text.toList) = ts at hmem
  cases ts with
  | nil => rfl
  | cons t ts => exact splitOn_intercalate_comma_space hmem

/-- The text of an instruction reads back as the instruction. -/
theorem read?_text (i : Instruction) : read? i.text = some i := by
  rw [read?, mnemonicOf_text, operandsOf_text, String.ofList_toList, List.map_map,
    ← ofParts?_parts i]
  simp [Function.comp_def, Operand.read_text]

theorem text_injective : Function.Injective text := fun i j h =>
  Option.some.inj ((read?_text i).symm.trans (h ▸ read?_text j))

example : read? "LD [I], VE" = some (.storeRegisters 0xE) := by decide

end Instruction

end Chip8
