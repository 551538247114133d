import Chip8.Screen
import Mathlib.Data.Finset.Prod

/-!
# Sprites as flips

To paint a sprite is to flip the pixels under its ones, one after the other. A pixel is flipped once
for every one that falls on it, and that may be more than one, since a sprite taller than the screen
comes back to the rows it began with.

* `coe_hits`: the cells under a sprite are those under its ones.
* `drawing_order_free`: sprites may be painted in any order, and painting one twice undoes it.
* `litCount_paint`: how many more pixels are on afterwards.
-/

namespace Chip8.Screen

/-! ## The ones of a sprite -/

/-- The ones of a sprite, by row and column: bit 7 of a byte is in column 0. -/
def ones (sprite : List Byte) : Finset (Nat × Nat) :=
  (Finset.range sprite.length ×ˢ Finset.range 8).filter fun (i, j) =>
    (sprite.getD i 0).getLsbD (7 - j) = true

theorem zipIdx_eq (sprite : List Byte) :
    sprite.zipIdx = (List.range sprite.length).map fun i => (sprite.getD i 0, i) := by
  refine List.ext_getElem (by simp) fun i h₁ h₂ => ?_
  have hi : i < sprite.length := by simpa using h₁
  simp [hi]

/-- The cells under a sprite are those under its ones. -/
theorem coe_hits (x y : Nat) (sprite : List Byte) :
    (hits x y sprite : Multiset Cell) =
      (ones sprite).val.map fun (i, j) => index (x + j) (y + i) := by
  -- the leftmost column has the most significant bit
  have hrow : ∀ i, (List.range 8).filter (sprite.getD i 0).getMsbD =
      (List.range 8).filter fun j => (sprite.getD i 0).getLsbD (7 - j) := by
    refine fun i => List.filter_congr fun j hj => ?_
    simp only [BitVec.getMsbD, List.mem_range.mp hj, decide_true, Bool.true_and,
      Nat.add_one_sub_one]
  rw [hits, ones, zipIdx_eq, List.flatMap_map]
  simp only [Finset.filter_val, Finset.product_val, Finset.range_val, Multiset.range]
  rw [Multiset.coe_product, Multiset.filter_coe, Multiset.map_coe]
  refine congrArg _ ?_
  simp only [SProd.sprod, List.product, List.filter_flatMap, List.map_flatMap, List.filter_map,
    List.map_map, hrow, Function.comp_def, Bool.decide_eq_true]

theorem length_hits (x y : Nat) (sprite : List Byte) :
    (hits x y sprite).length = (ones sprite).card := by
  rw [← Multiset.coe_card, coe_hits, Multiset.card_map, Finset.card_val]

theorem hits_eq_nil_iff {x y : Nat} {sprite : List Byte} :
    hits x y sprite = [] ↔ ¬ (ones sprite).Nonempty := by
  rw [← List.length_eq_zero_iff, length_hits, Finset.card_eq_zero, Finset.not_nonempty_iff_eq_empty]

/-! ## Sprites in any order -/

/-- A sprite, and where its upper left corner goes. -/
structure Drawing where
  /-- The column. -/
  x : Byte
  /-- The row. -/
  y : Byte
  /-- The rows of the sprite. -/
  sprite : List Byte

/-- The cells under a sprite. -/
def Drawing.hits (d : Drawing) : List Cell := Screen.hits d.x.toNat d.y.toNat d.sprite

/-- Paints some sprites in turn, and says of each whether a pixel was switched off. -/
def paintAll : List Drawing → Screen → List Bool × Screen
  | [], s => ([], s)
  | d :: ds, s =>
    let (hit, s) := paint d.x d.y d.sprite s
    let (hits, s) := paintAll ds s
    (hit :: hits, s)

theorem flipAll_flatMap_hits (ds : List Drawing) (s : Screen) :
    flipAll (ds.flatMap Drawing.hits) s = ((paintAll ds s).1.or, (paintAll ds s).2) := by
  induction ds generalizing s with
  | nil => rfl
  | cons d ds ih =>
    rw [List.flatMap_cons, flipAll_append, ih]
    rfl

/-- Sprites may be painted in any order: the screen is the same afterwards, and a pixel is switched
off on the way in one order just if one is in another. A sprite that is painted twice leaves the
screen as it was, and switches a pixel off one of the times just if it has a one. -/
theorem drawing_order_free (s : Screen) :
    (∀ ds es : List Drawing, ds.Perm es →
      (s.paintAll ds).2 = (s.paintAll es).2 ∧ (s.paintAll ds).1.or = (s.paintAll es).1.or) ∧
    ∀ (x y : Byte) (sprite : List Byte),
      let once := s.paint x y sprite
      let twice := once.2.paint x y sprite
      twice.2 = s ∧ ((once.1 = true ∨ twice.1 = true) ↔ (ones sprite).Nonempty) := by
  refine ⟨fun ds es h => ?_, fun x y sprite => ?_⟩
  · have heq := flipAll_perm (h.flatMap_right Drawing.hits) s
    rw [flipAll_flatMap_hits, flipAll_flatMap_hits, Prod.mk.injEq] at heq
    exact heq.symm
  · have hscreen := flipAll_twice (hits x.toNat y.toNat sprite) s
    have hhit := hit_flipAll_twice_iff (hits x.toNat y.toNat sprite) s
    rw [flipAll_append] at hscreen hhit
    rw [Bool.or_eq_true, ne_eq, hits_eq_nil_iff, not_not] at hhit
    exact ⟨hscreen, hhit⟩

/-- A pixel, one over it and its right neighbour, and the pixel again: which of the last two sprites
switches a pixel off is not the same in both orders, but that one of them does is. -/
theorem drawing_order_free_overlapping :
    let right : Drawing := ⟨1, 0, [0x80]⟩
    let both : Drawing := ⟨0, 0, [0xC0]⟩
    let left : Drawing := ⟨0, 0, [0x80]⟩
    [right, both, left].Perm [right, left, both] ∧
      (blank.paintAll [right, both, left]).1 = [false, true, true] ∧
      (blank.paintAll [right, left, both]).1 = [false, false, true] ∧
      (blank.paintAll [right, both, left]).2 = (blank.paintAll [right, left, both]).2 ∧
      (blank.paintAll [right, both, left]).1.or = (blank.paintAll [right, left, both]).1.or := by
  intro right both left
  have hp : [right, both, left].Perm [right, left, both] := (List.Perm.swap left both []).cons right
  exact ⟨hp, by decide +kernel, by decide +kernel, (drawing_order_free blank).1 _ _ hp⟩

/-! ## The number of pixels that are on -/

/-- The pixels that painting a sprite adds to those that are on: one for every one of the sprite,
less two for every one that switched a pixel off. Painting answers whether there was such a one, and
so whether fewer pixels were added than the sprite has ones. -/
theorem litCount_paint (s : Screen) (x y : Byte) (sprite : List Byte) :
    let (hit, painted) := s.paint x y sprite
    let off := switchOffs (hits x.toNat y.toNat sprite) s
    let gained : Int := painted.litCount - s.litCount
    gained = (ones sprite).card - 2 * off ∧ off ≤ (ones sprite).card ∧
      (hit = true ↔ 1 ≤ off) ∧ (hit = false ↔ gained = (ones sprite).card) := by
  have hcount := litCount_flipAll (hits x.toNat y.toNat sprite) s
  have hle := switchOffs_le_length (hits x.toNat y.toNat sprite) s
  have hhit := hit_flipAll_iff_switchOffs (hits x.toNat y.toNat sprite) s
  rw [length_hits] at hcount hle
  rw [paint]
  generalize flipAll (hits x.toNat y.toNat sprite) s = p at hcount hhit ⊢
  refine ⟨by omega, hle, hhit, ?_⟩
  rw [← Bool.not_eq_true, hhit]
  omega

end Chip8.Screen
