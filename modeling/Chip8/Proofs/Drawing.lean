import Mathlib.Algebra.Group.Fin.Basic
import Mathlib.Algebra.GroupWithZero.Nat
import Chip8.Proofs.Arithmetic
import Chip8.Proofs.Emulator
import Chip8.Proofs.Torus

/-!
# Drawing

DXYN paints N bytes of memory, from the index register on, where VX and VY say. A sprite no taller
than the screen does not come round to a pixel again, so each pixel is flipped once or not at all:
the picture afterwards is the exclusive or of the picture before and the sprite.

* `Torus.ofSprite`: a sprite as a picture.
* `strikes_eq_toNat_ofSprite`: its ones fall on a pixel once or not at all.
* `torus_paint_eq_xor`, `hit_paint_eq_decide`: what painting does, and what it answers.
* `refused_or_drawn`: when DXYN is refused, and what it does otherwise (`Machine.Drawn`).
-/

namespace Chip8

/-! ## A sprite as a picture -/

namespace Torus

variable {x y : Byte} {sprite : List Byte} {a : Fin screenWidth} {b : Fin screenHeight}

/-- The picture of a sprite with its upper left corner in column `x` and row `y`: a pixel is found
in it by going back from the pixel to the corner. -/
def ofSprite (x y : Byte) (sprite : List Byte) : Torus := fun a b =>
  (sprite.getD (b - Fin.ofNat _ y.toNat).val 0).getMsbD (a - Fin.ofNat _ x.toNat).val

/-- Going on from `x` by less than a whole round leads to `a` just if it is the way back from
`a`. -/
theorem add_mod_eq_iff {w : Nat} [NeZero w] {a : Fin w} {x j : Nat} (hj : j < w) :
    (x + j) % w = a ↔ j = (a - Fin.ofNat w x).val := by
  have hsum : Fin.ofNat w x + ⟨j, hj⟩ = a ↔ (x + j) % w = a := by
    rw [Fin.ofNat_add, Fin.ext_iff, Fin.val_ofNat]
  rw [← hsum, ← eq_sub_iff_add_eq', Fin.ext_iff]

theorem mem_ones_iff {i j : Nat} :
    (i, j) ∈ Screen.ones sprite ↔ (sprite.getD i 0).getMsbD j = true := by
  simp only [Screen.ones, Finset.mem_filter, Finset.mem_product, Finset.mem_range, BitVec.getMsbD,
    Nat.add_one_sub_one, Bool.and_eq_true, decide_eq_true_eq]
  constructor
  · rintro ⟨⟨-, hj⟩, hbit⟩
    exact ⟨hj, hbit⟩
  · rintro ⟨hj, hbit⟩
    refine ⟨⟨?_, hj⟩, hbit⟩
    -- beyond its rows, a sprite has no ones
    by_contra hi
    rw [List.getD_eq_getElem?_getD, List.getElem?_eq_none (Nat.le_of_not_lt hi)] at hbit
    simp at hbit

/-- A sprite no taller than the screen has at most one row, and one column, for every pixel. -/
theorem strikes_eq_toNat_ofSprite (h : sprite.length ≤ screenHeight) :
    strikes x y sprite a b = (ofSprite x y sprite a b).toNat := by
  -- a one that falls on the pixel can only be at one place of the sprite
  have hpixel (p) (hp : p ∈ Screen.ones sprite) :
      ((x.toNat + p.2) % screenWidth = a ∧ (y.toNat + p.1) % screenHeight = b) ↔
        p = ((b - Fin.ofNat _ y.toNat).val, (a - Fin.ofNat _ x.toNat).val) := by
    have hp := (Finset.mem_filter.mp hp).1
    rw [Finset.mem_product, Finset.mem_range, Finset.mem_range] at hp
    rw [add_mod_eq_iff (Nat.lt_trans hp.2 (by decide)),
      add_mod_eq_iff (Nat.lt_of_lt_of_le hp.1 h), Prod.ext_iff, and_comm]
  rw [strikes, Finset.filter_congr hpixel, Finset.filter_eq', apply_ite Finset.card,
    Finset.card_singleton, Finset.card_empty]
  by_cases hbit : ofSprite x y sprite a b = true
  · rw [if_pos (mem_ones_iff.mpr hbit), hbit, Bool.toNat_true]
  · rw [if_neg (mt mem_ones_iff.mp hbit), eq_false_of_ne_true hbit, Bool.toNat_false]

end Torus

namespace Screen

variable {s : Screen} {x y : Byte} {sprite : List Byte}

/-- The picture after painting is the exclusive or of the picture and the sprite. -/
theorem torus_paint_eq_xor (h : sprite.length ≤ screenHeight) (a : Fin screenWidth)
    (b : Fin screenHeight) :
    (s.paint x y sprite).2.torus a b = (s.torus a b ^^ Torus.ofSprite x y sprite a b) := by
  simp only [torus_paint, Torus.stroke, Torus.strikes_eq_toNat_ofSprite h]
  cases Torus.ofSprite x y sprite a b <;> simp

/-- A pixel is switched off on the way just if one is off afterwards that was on before. -/
theorem hit_paint_eq_decide (h : sprite.length ≤ screenHeight) :
    (s.paint x y sprite).1 =
      decide (∃ a b, s.torus a b = true ∧ (s.paint x y sprite).2.torus a b = false) := by
  rw [Bool.eq_iff_iff, hit_paint_iff, decide_eq_true_iff]
  refine exists_congr fun a => exists_congr fun b => ?_
  rw [torus_paint_eq_xor h, Torus.strikes_eq_toNat_ofSprite h]
  cases s.torus a b <;> cases Torus.ofSprite x y sprite a b <;> decide

end Screen

/-! ## The instruction -/

namespace Machine

open Opcode

/-- From a machine `m` to a machine `m'`, an opcode DXYN has drawn a sprite. -/
structure Drawn (op : Word) (rows : List Byte) (m m' : Machine) : Prop where
  length : rows.length = op.toNat % 16
  /-- The rows are the bytes from I on. -/
  row : ∀ k (hk : k < rows.length), ∃ ha : m.registers.index.toNat + k < memorySize,
    rows[k] = m.memory.bytes[m.registers.index.toNat + k]
  /-- VX and VY are those before the instruction, also where one of them is VF. -/
  screen : ∀ a b, m'.screen.torus a b =
    (m.screen.torus a b ^^ Torus.ofSprite (m.reg (x op)) (m.reg (y op)) rows a b)
  flag : m'.reg flagRegister =
    if ∃ a b, m.screen.torus a b = true ∧ m'.screen.torus a b = false then 1 else 0
  rest : KeepsBut [flagRegister.low] { m with screen := m'.screen } m'

variable {m : Machine} {op : Word}

theorem drawn_painted (hfit : m.registers.index.toNat + (n op).toNat ≤ memorySize) :
    let rows := m.memory.bytesFrom m.registers.index (n op).toNat
    m.Drawn op rows (m.painted (x op) (y op) rows) := by
  intro rows
  have hlen : rows.length = (n op).toNat := Memory.length_bytesFrom hfit _
  have hle : rows.length ≤ screenHeight := by
    have hn := toNat_n_lt op
    simp only [hlen, screenHeight]
    omega
  refine ⟨hlen.trans (toNat_n op), fun k hk => ?_, Screen.torus_paint_eq_xor hle, ?_,
    ⟨fun r hr => ?_, rfl, rfl, rfl⟩⟩
  · have ha : m.registers.index.toNat + k < memorySize := by omega
    exact ⟨ha, Memory.getElem_bytesFrom ha hk⟩
  · refine (Registers.get_setFlag _ _).trans ?_
    rw [Screen.hit_paint_eq_decide hle]
    exact if_congr decide_eq_true_iff rfl rfl
  · rw [List.mem_singleton] at hr
    exact Registers.get_setFlag_of_ne hr

/-- The last byte of a block, if it has one, decides whether it goes beyond the end of memory. -/
theorem beyond_iff {a n : Nat} :
    memorySize < a + n ↔ (∃ k < n, memorySize ≤ a + k) ∨ n = 0 ∧ memorySize < a := by
  constructor
  · intro h
    by_cases hn : n = 0
    · exact .inr ⟨hn, by omega⟩
    · exact .inl ⟨n - 1, by omega, by omega⟩
  · rintro (⟨k, hk, ha⟩ | ⟨rfl, ha⟩) <;> omega

/-- DXYN is refused just if one of its N bytes lies beyond the end of memory, or there are none of
them and the index register itself does. Otherwise it draws them, and touches no other part of the
machine than the screen and VF. -/
theorem refused_or_drawn (m : Machine) (ho : op &&& 0xF000 = 0xD000) :
    ((∃ f m', obey op m = .error f m') ↔
      (∃ k < op.toNat % 16, memorySize ≤ m.registers.index.toNat + k) ∨
        op.toNat % 16 = 0 ∧ memorySize < m.registers.index.toNat) ∧
    ((¬ ∃ f m', obey op m = .error f m') →
      ∃ rows m', obey op m = .ok .redraw m' ∧ m.Drawn op rows m') := by
  have hobey := obey_of_encodes (show Encodes op (.draw (x op) (y op) (n op)) from
    ⟨ho, rfl, rfl, rfl⟩) m
  rw [refusal] at hobey
  rw [← beyond_iff, ← toNat_n, ← Nat.not_le, ← Memory.readFault_eq_none_iff]
  cases hr : Memory.readFault m.registers.index (n op).toNat with
  | some f =>
    rw [hr] at hobey
    exact ⟨iff_of_true ⟨_, _, hobey⟩ (Option.some_ne_none f), fun h => absurd ⟨_, _, hobey⟩ h⟩
  | none =>
    rw [hr] at hobey
    refine ⟨iff_of_false ?_ (not_not_intro rfl), fun _ => ⟨_, _, hobey, drawn_painted ?_⟩⟩
    · rintro ⟨f, m', h⟩
      cases hobey.symm.trans h
    · exact Memory.readFault_eq_none_iff.mp hr

/-- The digit 0 across the lower right corner of a blank screen, with its column in VF: the last of
its five rows ends in column 1 of row 2, and VF is cleared. -/
theorem refused_or_drawn_across_corner :
    let m := (fresh (.ofSeed 7)).mapRegisters fun r => ((r.set 0xF 62).set 1 30).point 0x050
    ∃ m', obey 0xDF15 m = .ok .redraw m' ∧ m'.screen.torus 1 2 = true ∧ m'.reg 0xF = 0 := by
  intro m
  have ho : (0xDF15 : Word) &&& 0xF000 = 0xD000 := by decide
  obtain ⟨hiff, hdrawn⟩ := refused_or_drawn m ho
  have hfit : ¬ ∃ f m', obey 0xDF15 m = .error f m' := by
    rw [hiff]
    have hi : m.registers.index.toNat = 0x50 := by decide
    have hn : (0xDF15 : Word).toNat % 16 = 5 := by decide
    simp only [hi, hn, memorySize]
    omega
  obtain ⟨rows, m', hm, h⟩ := hdrawn hfit
  have hlen : rows.length = 5 := h.length.trans (by decide)
  have hglyph : Memory.fresh.bytes[0x54] = 0xF0 := (Memory.getElem_fresh (by decide)).trans rfl
  have hrow : rows[4]? = some 0xF0 := by
    obtain ⟨ha, hk⟩ := h.row 4 (by omega)
    rw [List.getElem?_eq_getElem (by omega), hk]
    exact congrArg some hglyph
  have hsprite : Torus.ofSprite (m.reg (x 0xDF15)) (m.reg (y 0xDF15)) rows 1 2 = true := by
    show (rows.getD 4 0).getMsbD 3 = true
    rw [List.getD_eq_getElem?_getD, hrow]
    rfl
  have hblank : m.screen.torus = Torus.blank := Screen.torus_blank
  refine ⟨m', hm, ?_, h.flag.trans (if_neg ?_)⟩
  · rw [h.screen, hsprite, hblank]
    rfl
  · rintro ⟨a, b, hon, -⟩
    rw [hblank] at hon
    cases hon

/-- The index register can be brought past the end of memory. A sprite without rows takes no byte
from there, but is refused. -/
theorem sprite_without_rows_refused :
    let e := ((Emulator.ofSeed 7).run
      [.load [0xAF, 0xFF, 0x60, 0x02, 0xF0, 0x1E, 0xD0, 0x10], .tick, .tick, .tick]).emulator
    e.Reachable ∧ e.peek = .ok (.draw 0 1 0) ∧
      (¬ ∃ k < (0xD010 : Word).toNat % 16, memorySize ≤ e.machine.registers.index.toNat + k) ∧
      obey 0xD010 e.advanced = .error (.fault (.illegalAccess 0x1001)) e.advanced := by
  have hrefused (e : Emulator) (hi : e.machine.registers.index = 0x1001) :
      obey 0xD010 e.advanced = .error (.fault (.illegalAccess 0x1001)) e.advanced := by
    replace hi : e.advanced.registers.index = 0x1001 := hi
    rw [obey_of_encodes (show Encodes 0xD010 (.draw 0 1 0) from
      ⟨by decide, by decide, by decide, by decide⟩), refusal, hi]
    rfl
  intro e
  have he : e.peek = .ok (.draw 0 1 0) ∧ e.machine.registers.index = 0x1001 := by decide +kernel
  refine ⟨⟨.ofSeed 7, _, rfl⟩, he.1, ?_, hrefused e he.2⟩
  rintro ⟨k, hk, -⟩
  exact absurd hk (by simp)

end Machine

end Chip8
