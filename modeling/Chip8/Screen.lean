import Chip8.Word

/-!
# The screen

A picture of 64 by 32 pixels, each on or off. Coordinates wrap around both
edges. A sprite is a list of rows of eight pixels, the most significant bit of
a row leftmost; painting it flips every pixel where it has a one.

* `index_add_width`, `index_add_height`: the screen has no edges.
* `cells_flipAll`, `hit_flipAll_iff`: the pixels after some flips, and whether one was switched off.
  They depend only on how often each pixel is flipped.
* `litCount_flipAll`: how many pixels are on after some flips.
-/

namespace Chip8

/-- The number of columns. -/
abbrev screenWidth : Nat := 64

/-- The number of rows. -/
abbrev screenHeight : Nat := 32

/-- The state of every pixel. -/
@[ext] structure Screen where
  /-- The pixels, row after row. -/
  cells : Vector Bool (screenHeight * screenWidth)
deriving DecidableEq

namespace Screen

/-- A position in `Screen.cells`. -/
abbrev Cell := Fin (screenHeight * screenWidth)

/-- The screen with every pixel off. -/
def blank : Screen := ⟨Vector.replicate _ false⟩

instance : Inhabited Screen := ⟨blank⟩

/-- Turns every pixel off. -/
def clear (s : Screen) : Screen := ⟨s.cells.map fun _ => false⟩

theorem clear_eq_blank (s : Screen) : s.clear = blank := by
  simp only [clear, blank, Vector.map_const']

/-- The cell in column `x` and row `y`, counted around the edges. -/
def index (x y : Nat) : Cell :=
  ⟨y % screenHeight * screenWidth + x % screenWidth, by
    simp only [screenHeight, screenWidth]
    omega⟩

/-- Whether the pixel in column `x` and row `y` is on. -/
def get (s : Screen) (x y : Nat) : Bool := s.cells[index x y]

/-- Turns the pixel in column `x` and row `y` on or off. -/
def set (s : Screen) (x y : Nat) (on : Bool) : Screen := ⟨s.cells.set (index x y) on⟩

/-- Flips a pixel. -/
def flip (s : Screen) (c : Cell) : Screen := ⟨s.cells.set c (!s.cells[c])⟩

/-- The cells under the ones of a sprite whose upper left corner is in column `x`
and row `y`, in reading order. -/
def hits (x y : Nat) (sprite : List Byte) : List Cell :=
  sprite.zipIdx.flatMap fun (row, i) =>
    ((List.range 8).filter fun j => row.getMsbD j).map fun j => index (x + j) (y + i)

/-- Flips the pixels of some cells in turn, and says whether one was on before its
turn. -/
def flipAll (cells : List Cell) (s : Screen) : Bool × Screen :=
  cells.foldl (fun (hit, s) c => (hit || s.cells[c], s.flip c)) (false, s)

/-- Paints a sprite with its upper left corner in column `x` and row `y`, and says
whether a pixel was switched off. -/
def paint (x y : Byte) (sprite : List Byte) (s : Screen) : Bool × Screen :=
  flipAll (hits x.toNat y.toNat sprite) s

/-- The number of pixels that are on. -/
def litCount (s : Screen) : Nat := s.cells.count true

/-- The pixels of row `y` from left to right. -/
def row (s : Screen) (y : Nat) : List Bool := (List.range screenWidth).map (s.get · y)

/-! ## A picture without edges -/

theorem index_add_width (x y : Nat) : index (x + screenWidth) y = index x y :=
  Fin.ext (by simp only [index, screenWidth, screenHeight]; omega)

theorem index_add_height (x y : Nat) : index x (y + screenHeight) = index x y :=
  Fin.ext (by simp only [index, screenWidth, screenHeight]; omega)

theorem index_eq_iff {x y x' y' : Nat} :
    index x y = index x' y' ↔
      x % screenWidth = x' % screenWidth ∧ y % screenHeight = y' % screenHeight := by
  simp only [index, screenWidth, screenHeight, Fin.ext_iff]
  omega

theorem get_blank (x y : Nat) : blank.get x y = false :=
  Vector.getElem_replicate _

theorem get_set (s : Screen) (x y x' y' : Nat) (on : Bool) :
    (s.set x y on).get x' y' = if index x y = index x' y' then on else s.get x' y' := by
  simp only [get, set, Fin.getElem_fin, Vector.getElem_set, Fin.ext_iff]

theorem cells_flip (s : Screen) (c d : Cell) :
    (s.flip c).cells[d] = if c = d then !s.cells[d] else s.cells[d] := by
  simp only [flip, Fin.getElem_fin, Vector.getElem_set, Fin.ext_iff]
  split
  · next h => simp [h]
  · rfl

/-! ## Flips in turn -/

section Flips

variable {s : Screen} {cs ds : List Cell}

theorem foldl_flip (hit : Bool) (s : Screen) (cs : List Cell) :
    cs.foldl (fun (hit, s) c => (hit || s.cells[c], s.flip c)) (hit, s) =
      (hit || (flipAll cs s).1, (flipAll cs s).2) := by
  induction cs generalizing hit s with
  | nil => simp only [flipAll, List.foldl_nil, Bool.or_false]
  | cons c cs ih =>
    have hcons : flipAll (c :: cs) s = _ := ih (false || s.cells[c]) (s.flip c)
    rw [List.foldl_cons, ih, hcons, Bool.false_or, Bool.or_assoc]

theorem flipAll_nil (s : Screen) : flipAll [] s = (false, s) := rfl

theorem flipAll_cons (c : Cell) (cs : List Cell) (s : Screen) :
    flipAll (c :: cs) s =
      (s.cells[c] || (flipAll cs (s.flip c)).1, (flipAll cs (s.flip c)).2) := by
  rw [flipAll, List.foldl_cons, foldl_flip, Bool.false_or]

theorem flipAll_append (cs ds : List Cell) (s : Screen) :
    flipAll (cs ++ ds) s =
      ((flipAll cs s).1 || (flipAll ds (flipAll cs s).2).1, (flipAll ds (flipAll cs s).2).2) := by
  rw [flipAll, List.foldl_append, foldl_flip false s cs, foldl_flip, Bool.false_or]

/-- A pixel changes just if it is flipped an odd number of times. -/
theorem cells_flipAll (cs : List Cell) (s : Screen) (c : Cell) :
    (flipAll cs s).2.cells[c] = (s.cells[c] ^^ decide (cs.count c % 2 = 1)) := by
  induction cs generalizing s with
  | nil => simp [flipAll_nil]
  | cons d cs ih =>
    rw [flipAll_cons, ih, cells_flip, List.count_cons]
    by_cases h : d = c
    · rcases Nat.mod_two_eq_zero_or_one (cs.count c) with hc | hc <;>
        simp [h, hc, Nat.add_mod]
    · simp [h]

/-- Some flip finds the pixel on: it was on and is flipped, or it is flipped twice. -/
def GoesOff (s : Screen) (cs : List Cell) (c : Cell) : Prop :=
  (s.cells[c] = true ∧ 1 ≤ cs.count c) ∨ 2 ≤ cs.count c

theorem goesOff_cons {c d : Cell} :
    GoesOff s (d :: cs) c ↔ (d = c ∧ s.cells[d] = true) ∨ GoesOff (s.flip d) cs c := by
  rw [GoesOff, GoesOff, List.count_cons, cells_flip]
  by_cases h : d = c
  · subst h
    -- the pixel goes off now if it was on, and is on for the flips to come if it was off
    cases s.cells[d] <;> simp only [beq_self_eq_true, ↓reduceIte, Bool.not_true, Bool.not_false,
      Bool.false_eq_true, false_and, true_and, and_false, false_or, true_or, iff_true] <;> omega
  · simp only [beq_eq_false_iff_ne.mpr h, Bool.false_eq_true, ↓reduceIte, Nat.add_zero, h,
      false_and, false_or]

theorem hit_flipAll_iff : (flipAll cs s).1 = true ↔ ∃ c, GoesOff s cs c := by
  induction cs generalizing s with
  | nil => simp [flipAll_nil, GoesOff]
  | cons d cs ih =>
    rw [flipAll_cons, Bool.or_eq_true, ih]
    simp only [goesOff_cons, exists_or, exists_eq_left']

theorem flipAll_perm (h : cs.Perm ds) (s : Screen) : flipAll cs s = flipAll ds s := by
  refine Prod.ext ?_ (Screen.ext (Vector.ext fun i hi => ?_))
  · rw [Bool.eq_iff_iff, hit_flipAll_iff, hit_flipAll_iff]
    simp only [GoesOff, h.count_eq]
  · have hc := cells_flipAll cs s ⟨i, hi⟩
    rw [h.count_eq, ← cells_flipAll ds s ⟨i, hi⟩] at hc
    exact hc

theorem flipAll_twice (cs : List Cell) (s : Screen) : (flipAll (cs ++ cs) s).2 = s := by
  refine Screen.ext (Vector.ext fun i hi => ?_)
  have hc := cells_flipAll (cs ++ cs) s ⟨i, hi⟩
  rw [List.count_append, ← Nat.two_mul, Nat.mul_mod_right] at hc
  rwa [decide_eq_false (by decide), Bool.xor_false] at hc

theorem hit_flipAll_twice_iff (cs : List Cell) (s : Screen) :
    (flipAll (cs ++ cs) s).1 = true ↔ cs ≠ [] := by
  rw [hit_flipAll_iff]
  constructor
  · rintro ⟨c, hc⟩ rfl
    simp [GoesOff] at hc
  · intro hne
    obtain ⟨c, hc⟩ := List.exists_mem_of_ne_nil cs hne
    have := List.one_le_count_iff.mpr hc
    refine ⟨c, .inr ?_⟩
    rw [List.count_append]
    omega

/-! ## The number of pixels that are on -/

/-- How many flips of some cells in turn switch a pixel off. -/
def switchOffs : List Cell → Screen → Nat
  | [], _ => 0
  | c :: cs, s => s.cells[c].toNat + switchOffs cs (s.flip c)

theorem switchOffs_le_length (cs : List Cell) (s : Screen) : switchOffs cs s ≤ cs.length := by
  induction cs generalizing s with
  | nil => exact Nat.le_refl 0
  | cons c cs ih =>
    have := ih (s.flip c)
    have := Bool.toNat_le s.cells[c]
    rw [switchOffs, List.length_cons]
    omega

theorem hit_flipAll_iff_switchOffs (cs : List Cell) (s : Screen) :
    (flipAll cs s).1 = true ↔ 1 ≤ switchOffs cs s := by
  induction cs generalizing s with
  | nil => simp [flipAll_nil, switchOffs]
  | cons c cs ih =>
    rw [flipAll_cons, Bool.or_eq_true, ih, switchOffs]
    cases s.cells[c] <;> simp

theorem litCount_flip (s : Screen) (c : Cell) :
    (s.flip c).litCount + 2 * s.cells[c].toNat = s.litCount + 1 := by
  have hc : (s.flip c).litCount = _ := Vector.count_set c.isLt
  rw [hc, litCount]
  cases h : s.cells[c] with
  | false => simp_all
  | true =>
    have : 0 < s.cells.count true := Vector.count_pos_iff.mpr (h ▸ Vector.getElem_mem c.isLt)
    simp_all

theorem litCount_flipAll (cs : List Cell) (s : Screen) :
    (flipAll cs s).2.litCount + 2 * switchOffs cs s = s.litCount + cs.length := by
  induction cs generalizing s with
  | nil => rfl
  | cons c cs ih =>
    have hc := s.litCount_flip c
    have hcs := ih (s.flip c)
    simp only [flipAll_cons, switchOffs, List.length_cons]
    omega

end Flips

end Screen

end Chip8
