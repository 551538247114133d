import Chip8.Proofs.Sprite

/-!
# The screen as a torus

A picture on a torus has a pixel for every column modulo the width and every row modulo the height.
Setting a pixel, painting a sprite and clearing the picture are simple there: a sprite flips the
pixels that an odd number of its ones fall on. What the screen shows is such a picture, and
operations on the screen are these operations on it.

* `get_eq_torus`: the screen has no other pixels than those of its picture.
* `torus_stroke`, `torus_foldl_stroke`: the picture after one operation, and after several.
* `screen_is_torus`: so the screen is a torus all along, and painting answers whether a pixel that
  was on is hit, or a pixel is hit twice.
-/

namespace Chip8

/-- A picture without edges: whether the pixel in a column and a row is on. -/
abbrev Torus := Fin screenWidth → Fin screenHeight → Bool

/-- An operation on a picture. -/
inductive Stroke where
  /-- Turns the pixel in column `x` and row `y` on or off. -/
  | set (x y : Nat) (on : Bool)
  /-- Paints a sprite with its upper left corner in column `x` and row `y`. -/
  | paint (x y : Byte) (sprite : List Byte)
  /-- Turns every pixel off. -/
  | clear

/-- The screen after an operation. -/
def Screen.stroke (s : Screen) : Stroke → Screen
  | .set x y on => s.set x y on
  | .paint x y sprite => (s.paint x y sprite).2
  | .clear => s.clear

namespace Torus

/-- The picture with every pixel off. -/
def blank : Torus := fun _ _ => false

/-- How many ones of a sprite with its upper left corner in column `x` and row `y` fall on the pixel
in column `a` and row `b`. -/
def strikes (x y : Byte) (sprite : List Byte) (a : Fin screenWidth) (b : Fin screenHeight) : Nat :=
  ((Screen.ones sprite).filter fun (i, j) =>
    (x.toNat + j) % screenWidth = a ∧ (y.toNat + i) % screenHeight = b).card

/-- The picture after an operation. -/
def stroke (t : Torus) : Stroke → Torus
  | .set x y on => fun a b => if x % screenWidth = a ∧ y % screenHeight = b then on else t a b
  | .paint x y sprite => fun a b => if strikes x y sprite a b % 2 = 1 then !t a b else t a b
  | .clear => blank

end Torus

namespace Screen

/-- What the screen shows. -/
def torus (s : Screen) : Torus := fun a b => s.get a b

variable {s : Screen}

theorem get_congr {x y x' y' : Nat} (h : index x y = index x' y') : s.get x y = s.get x' y' :=
  congrArg (fun c : Cell => s.cells[c]) h

/-- The screen shows nothing beyond its edges but the same picture again. -/
theorem get_mod (s : Screen) (a b : Nat) :
    s.get a b = s.get (a % screenWidth) (b % screenHeight) :=
  get_congr (index_eq_iff.mpr ⟨(Nat.mod_mod a _).symm, (Nat.mod_mod b _).symm⟩)

theorem get_eq_torus (s : Screen) (a b : Nat) :
    s.get a b = s.torus (Fin.ofNat _ a) (Fin.ofNat _ b) := s.get_mod a b

/-- A cell is flipped once for every one that falls on its pixel. -/
theorem count_hits (x y : Byte) (sprite : List Byte) (a : Fin screenWidth) (b : Fin screenHeight) :
    (hits x.toNat y.toNat sprite).count (index a b) = Torus.strikes x y sprite a b := by
  rw [← Multiset.coe_count, coe_hits, Multiset.count_map, Torus.strikes, Finset.card_def,
    Finset.filter_val]
  refine congrArg _ (Multiset.filter_congr fun (i, j) _ => ?_)
  rw [index_eq_iff, Nat.mod_eq_of_lt a.isLt, Nat.mod_eq_of_lt b.isLt, eq_comm, @eq_comm _ b.val]

/-- Every cell holds a pixel of the picture. -/
theorem exists_index (c : Cell) :
    ∃ (a : Fin screenWidth) (b : Fin screenHeight), index a b = c := by
  have hb : c.val / screenWidth < screenHeight := Nat.div_lt_of_lt_mul c.isLt
  refine ⟨⟨c.val % screenWidth, Nat.mod_lt _ (by decide)⟩, ⟨c.val / screenWidth, hb⟩, Fin.ext ?_⟩
  simp only [index, Nat.mod_mod, Nat.mod_eq_of_lt hb]
  exact Nat.div_add_mod' c.val screenWidth

/-! ## The picture after an operation -/

theorem torus_blank : blank.torus = Torus.blank :=
  funext fun a => funext fun b => get_blank a b

theorem torus_set (s : Screen) (x y : Nat) (on : Bool) :
    (s.set x y on).torus = s.torus.stroke (.set x y on) := by
  funext a b
  show (s.set x y on).get a b = _
  rw [get_set, Torus.stroke]
  simp only [index_eq_iff, Nat.mod_eq_of_lt a.isLt, Nat.mod_eq_of_lt b.isLt]
  rfl

theorem torus_paint (s : Screen) (x y : Byte) (sprite : List Byte) :
    (s.paint x y sprite).2.torus = s.torus.stroke (.paint x y sprite) := by
  funext a b
  have hc := cells_flipAll (hits x.toNat y.toNat sprite) s (index a b)
  rw [count_hits] at hc
  show (flipAll (hits x.toNat y.toNat sprite) s).2.cells[index a b] =
    if Torus.strikes x y sprite a b % 2 = 1 then !s.torus a b else s.torus a b
  rw [hc]
  split
  · next hodd =>
    rw [decide_eq_true hodd, Bool.xor_true]
    rfl
  · next heven =>
    rw [decide_eq_false heven, Bool.xor_false]
    rfl

theorem torus_stroke (s : Screen) (c : Stroke) : (s.stroke c).torus = s.torus.stroke c := by
  cases c with
  | set x y on => exact s.torus_set x y on
  | paint x y sprite => exact s.torus_paint x y sprite
  | clear =>
    show s.clear.torus = Torus.blank
    rw [clear_eq_blank, torus_blank]

theorem torus_foldl_stroke (s : Screen) (cs : List Stroke) :
    (cs.foldl stroke s).torus = cs.foldl Torus.stroke s.torus := by
  induction cs generalizing s with
  | nil => rfl
  | cons c cs ih => rw [List.foldl_cons, List.foldl_cons, ih, torus_stroke]

/-! ## What painting answers -/

/-- A pixel is switched off just if one that was on is hit, or one is hit twice. -/
theorem hit_paint_iff {x y : Byte} {sprite : List Byte} :
    (s.paint x y sprite).1 = true ↔
      ∃ a b, (s.torus a b = true ∧ 1 ≤ Torus.strikes x y sprite a b) ∨
        2 ≤ Torus.strikes x y sprite a b := by
  rw [paint, hit_flipAll_iff]
  constructor
  · rintro ⟨c, hc⟩
    obtain ⟨a, b, rfl⟩ := exists_index c
    rw [GoesOff, count_hits] at hc
    exact ⟨a, b, hc⟩
  · rintro ⟨a, b, h⟩
    refine ⟨index a b, ?_⟩
    rw [GoesOff, count_hits]
    exact h

/-- After any operations on a blank screen, a pixel depends only on its column modulo the width and
its row modulo the height, and is on just if it is in the picture after the same operations on a
torus. A sprite that is painted then switches a pixel off just if one of its ones falls on a pixel
that is on, or two of them fall on the same pixel. -/
theorem screen_is_torus (cs : List Stroke) :
    let s := cs.foldl stroke blank
    let t := cs.foldl Torus.stroke Torus.blank
    (∀ a b, s.get a b = s.get (a % screenWidth) (b % screenHeight)) ∧
    (∀ a b, s.get a b = t (Fin.ofNat _ a) (Fin.ofNat _ b)) ∧
    ∀ (x y : Byte) (sprite : List Byte),
      (s.paint x y sprite).1 = true ↔
        ∃ a b, (t a b = true ∧ 1 ≤ Torus.strikes x y sprite a b) ∨
          2 ≤ Torus.strikes x y sprite a b := by
  intro s t
  have ht : s.torus = t := (torus_foldl_stroke blank cs).trans (by rw [torus_blank])
  rw [← ht]
  exact ⟨s.get_mod, s.get_eq_torus, fun x y sprite => hit_paint_iff⟩

end Screen

end Chip8
