import Chip8.Proofs.Pacing

/-!
# Pacing in numbers of bounded size

The arithmetic of a pacer is done in numbers of bounded size: rates and ticks have 32 bits,
counts of nanoseconds 128, the seconds of a duration 64, and a clock shows a range of instants
only. `Pacer.startChecked` and `Pacer.pollChecked` do the arithmetic of `start` and `poll` with
every result checked for its size and every divisor for zero.

* `pollChecked_eq`: no check of a poll fails. Ticks are counted in 32 bits only when they are
  within the limit, and what a poll accounts for is bounded by the time that has passed.
* `pacing_in_range`: so it is with every poll of every pacer.
-/

namespace Chip8

/-! ## Durations and instants -/

/-- Durations are shorter than this, in nanoseconds: their seconds are a number of 64 bits. -/
abbrev durationLimit : Nat := (1 <<< 64) * secondLength

/-- The instants that a clock can show, from `first` on and before `stop`. The time from one of
them to another is a duration. -/
structure InstantRange where
  first : Int
  stop : Int
  span_le : stop - first ≤ durationLimit

namespace InstantRange

/-- The clock can show the instant. -/
def Contains (r : InstantRange) (t : Int) : Prop := r.first ≤ t ∧ t < r.stop

instance (r : InstantRange) (t : Int) : Decidable (r.Contains t) :=
  inferInstanceAs (Decidable (r.first ≤ t ∧ t < r.stop))

/-- The instants of the range. -/
abbrev Instant (r : InstantRange) := { t : Int // r.Contains t }

variable {r : InstantRange} {s t u : Int}

theorem toNat_sub_lt (hs : r.Contains s) (ht : r.Contains t) : (t - s).toNat < durationLimit := by
  have hspan := r.span_le
  obtain ⟨hs₁, hs₂⟩ := hs
  obtain ⟨ht₁, ht₂⟩ := ht
  omega

theorem contains_of_le_of_le_max (hs : r.Contains s) (ht : r.Contains t) (hle : s ≤ u)
    (hmax : u ≤ max s t) : r.Contains u :=
  ⟨Int.le_trans hs.1 hle, Int.lt_of_le_of_lt hmax (max_lt hs.2 ht.2)⟩

end InstantRange

namespace Pacer

/-! ## Checked arithmetic -/

/-- A quotient, unless the divisor is zero. -/
def divide (a b : Nat) : Option Nat := if b = 0 then none else some (a / b)

/-- Starts a pacer, if no result is out of range. -/
def startChecked (rate : BitVec 32) (origin : Int) : Option Pacer := do
  let rate := max rate.toNat 1
  let period ← divide secondLength rate
  let limit ← Option.guard (· < 1 <<< 32) (max (rate / 10) 1)
  return ⟨period, limit, origin⟩

/-- Polls a pacer, if no result is out of range. -/
def pollChecked (r : InstantRange) (p : Pacer) (now : Int) : Option Due := do
  let elapsed ← Option.guard (· < durationLimit) (now - p.last).toNat
  let nanoseconds ← Option.guard (· < 1 <<< 128) elapsed
  let ticks ← divide nanoseconds (max p.period 1)
  if p.limit < ticks then
    return ⟨p.limit, { p with last := now }, [.behind ticks]⟩
  else
    let ticks ← Option.guard (· < 1 <<< 32) ticks
    let advance ← Option.guard (· < durationLimit) (p.period * ticks)
    let last ← Option.guard (r.Contains ·) (p.last + advance)
    return ⟨ticks, { p with last := last }, []⟩

theorem divide_of_pos {b : Nat} (h : 0 < b) (a : Nat) : divide a b = some (a / b) :=
  if_neg (Nat.ne_of_gt h)

theorem limit_start_lt (rate : BitVec 32) (origin : Int) :
    (start rate.toNat origin).limit < 1 <<< 32 := by
  have hrate : max rate.toNat 1 < 1 <<< 32 := max_lt rate.isLt (by decide)
  exact max_lt (Nat.lt_of_le_of_lt (Nat.div_le_self ..) hrate) (by decide)

theorem startChecked_eq (rate : BitVec 32) (origin : Int) :
    startChecked rate origin = some (start rate.toNat origin) := by
  have hlimit : max (max rate.toNat 1 / 10) 1 < 1 <<< 32 := limit_start_lt rate origin
  have hpos : 0 < max rate.toNat 1 := Nat.lt_of_lt_of_le Nat.one_pos (Nat.le_max_right ..)
  simp only [startChecked, divide_of_pos hpos, Option.guard, hlimit, decide_true, ↓reduceIte,
    Option.bind_eq_bind, Option.bind_some, Option.pure_def, start]

variable {r : InstantRange} {p : Pacer} {now : Int}

theorem last_le_last_poll (p : Pacer) (now : Int) : p.last ≤ (p.poll now).pacer.last := by
  have hle := p.last_add_ticks_le now
  omega

theorem contains_last_poll (hlast : r.Contains p.last) (hnow : r.Contains now) :
    r.Contains (p.poll now).pacer.last :=
  InstantRange.contains_of_le_of_le_max hlast hnow (p.last_le_last_poll now) (p.last_poll_le now)

/-- No result of a poll is out of range. -/
theorem pollChecked_eq (hl : p.limit < 1 <<< 32) (hlast : r.Contains p.last)
    (hnow : r.Contains now) : p.pollChecked r now = some (p.poll now) := by
  have helapsed : (now - p.last).toNat < durationLimit :=
    InstantRange.toNat_sub_lt hlast hnow
  have hnano : (now - p.last).toNat < 1 <<< 128 := Nat.lt_trans helapsed (by decide)
  have hpos : 0 < max p.period 1 := Nat.lt_of_lt_of_le Nat.one_pos (Nat.le_max_right ..)
  simp only [pollChecked, Option.guard, helapsed, hnano, decide_true, ↓reduceIte,
    Option.bind_eq_bind, Option.bind_some, divide_of_pos hpos, Option.pure_def]
  rw [← elapsed]
  rcases Nat.lt_or_ge p.limit (p.elapsed now) with h | h
  · rw [if_pos h, poll_of_lt h]
  · -- within the limit, ticks fit into 32 bits and are paid for by the time elapsed
    have hticks : p.elapsed now < 1 <<< 32 := Nat.lt_of_le_of_lt h hl
    have hadvance : p.period * p.elapsed now < durationLimit :=
      Nat.lt_of_le_of_lt (p.period_mul_elapsed_le now) helapsed
    have hinstant := contains_last_poll hlast hnow
    rw [poll_of_le h] at hinstant ⊢
    simp only [Nat.not_lt.mpr h, hticks, hadvance, hinstant, decide_true, ↓reduceIte,
      Option.bind_some]

/-- The pacer has accounted for all time up to the instant. -/
theorem poll_of_le_last (h : now ≤ p.last) : p.poll now = ⟨0, p, []⟩ := by
  have helapsed : p.elapsed now = 0 := by
    rw [elapsed, Int.toNat_of_nonpos (by omega), Nat.zero_div]
  rw [poll_of_le (by rw [helapsed]; exact Nat.zero_le _), helapsed, Nat.mul_zero]
  simp only [Int.natCast_zero, Int.add_zero]

/-! ## Every poll -/

theorem contains_last_polled (hlast : r.Contains p.last) (nows : List r.Instant) :
    r.Contains (p.polled (nows.map (·.val))).last := by
  induction nows generalizing p with
  | nil => exact hlast
  | cons now nows ih => exact ih (contains_last_poll hlast now.property)

/-- A poll is in range: its arithmetic passes all checks, and what it accounts for is time that has
passed. -/
structure InRange (r : InstantRange) (p : Pacer) (now : Int) : Prop where
  checked : p.pollChecked r now = some (p.poll now)
  ticks_le : (p.poll now).ticks ≤ p.limit
  accounted : p.period * (p.poll now).ticks ≤ (now - p.last).toNat
  last_le_last : p.last ≤ (p.poll now).pacer.last
  last_le_max : (p.poll now).pacer.last ≤ max p.last now
  /-- There is nothing new at an instant that is accounted for. -/
  idle : now ≤ p.last → p.poll now = ⟨0, p, []⟩

theorem inRange_poll (hl : p.limit < 1 <<< 32) (hlast : r.Contains p.last) (hnow : r.Contains now) :
    p.InRange r now where
  checked := pollChecked_eq hl hlast hnow
  ticks_le := p.ticks_poll_le now
  accounted := Nat.le_trans (Nat.mul_le_mul_left _ (p.ticks_poll_le_elapsed now))
    (p.period_mul_elapsed_le now)
  last_le_last := p.last_le_last_poll now
  last_le_max := p.last_poll_le now
  idle := poll_of_le_last

/-- At all rates of 32 bits and for all polls in whatever order, no result is out of range and no
divisor zero, not even of a period that is rounded down to nothing. No poll yields more than the
ticks of a tenth of a second, or one. Time is accounted for up to the latest instant at most, and
none of it is taken back. -/
theorem pacing_in_range (rate : BitVec 32) (r : InstantRange) (origin : r.Instant)
    (before : List r.Instant) (now : r.Instant) :
    let p := (start rate.toNat origin).polled (before.map (·.val))
    startChecked rate origin = some (start rate.toNat origin) ∧
    p.InRange r now ∧
    (p.poll now).ticks ≤ max 1 (max rate.toNat 1 / 10) ∧
    p.last ≤ (before.map (·.val)).foldl max origin.val := by
  intro p
  have hlimit : p.limit = max (max rate.toNat 1 / 10) 1 := limit_polled ..
  have hlt : p.limit < 1 <<< 32 := hlimit ▸ limit_start_lt rate origin
  have hlast : r.Contains p.last := contains_last_polled origin.property before
  have hp : p.InRange r now := inRange_poll hlt hlast now.property
  refine ⟨startChecked_eq rate origin, hp, ?_, last_polled_le ..⟩
  rw [Nat.max_comm, ← hlimit]
  exact hp.ticks_le

-- the longest stall of a clock whose seconds are signed numbers of 64 bits, at the highest rate
example :
    let clock : InstantRange := ⟨-(0x8000000000000000 * secondLength), 0x8000000000000000 * secondLength, by decide⟩
    let due := (start 0xFFFFFFFF clock.first).pollChecked clock (clock.stop - 1)
    due.map (·.ticks) = some 429496729 := by
  decide

end Pacer

end Chip8
