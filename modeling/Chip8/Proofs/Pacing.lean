import Chip8.Pacing
import Mathlib.Order.Monotone.Basic
import Mathlib.Order.MinMax

/-!
# The time that polls account for

A poll moves the instant up to which a pacer has accounted for time, and the ticks it yields
are paid for by that move (`last_add_ticks_le`). The instant stays behind the polls
(`last_poll_le`), but by less than a period (`lt_last_poll`). All three are laws of one poll;
their sums over polls in turn say how many ticks polls yield together.

* `total_eq_div`: while the pacer keeps up, the whole periods from its start to the last poll,
  whatever polls there were before.
* `pacing_exact`: so a pacer neither drifts nor depends on when it is polled, and one that has
  skipped ahead is as good as new.
* `credits_no_time_twice_iff`: no time counts twice at rates up to a tick a nanosecond. Above,
  a period is rounded down to nothing, and ticks are yielded that nothing pays for.
-/

namespace Chip8.Pacer

variable {p : Pacer} {now : Int} {nows : List Int}

/-! ## One poll -/

theorem poll_of_le (h : p.elapsed now ≤ p.limit) :
    p.poll now =
      ⟨p.elapsed now, { p with last := p.last + (p.period * p.elapsed now : Nat) }, []⟩ :=
  if_neg (Nat.not_lt.mpr h)

theorem poll_of_lt (h : p.limit < p.elapsed now) :
    p.poll now = ⟨p.limit, { p with last := now }, [.behind (p.elapsed now)]⟩ :=
  if_pos h

@[simp] theorem period_poll (p : Pacer) (now : Int) : (p.poll now).pacer.period = p.period := by
  rw [poll]
  split <;> rfl

@[simp] theorem limit_poll (p : Pacer) (now : Int) : (p.poll now).pacer.limit = p.limit := by
  rw [poll]
  split <;> rfl

theorem ticks_poll_le_elapsed (p : Pacer) (now : Int) : (p.poll now).ticks ≤ p.elapsed now := by
  rcases Nat.lt_or_ge p.limit (p.elapsed now) with h | h
  · rw [poll_of_lt h]
    exact Nat.le_of_lt h
  · rw [poll_of_le h]

theorem period_mul_elapsed_le (p : Pacer) (now : Int) :
    p.period * p.elapsed now ≤ (now - p.last).toNat :=
  calc p.period * p.elapsed now
      ≤ max p.period 1 * p.elapsed now := Nat.mul_le_mul_right _ (Nat.le_max_left ..)
    _ ≤ (now - p.last).toNat := Nat.mul_div_le ..

/-- The pacer skips ahead in time, never back. -/
theorem last_le_of_lt (h : p.limit < p.elapsed now) : p.last ≤ now := by
  have hd : (now - p.last).toNat ≠ 0 := by
    intro h₀
    rw [elapsed, h₀, Nat.zero_div] at h
    exact Nat.not_lt_zero _ h
  omega

theorem last_poll_of_le (h : p.elapsed now ≤ p.limit) :
    (p.poll now).pacer.last = p.last + (p.period * (p.poll now).ticks : Nat) := by
  rw [poll_of_le h]

/-- The ticks of a poll are paid for by the time that it accounts for. -/
theorem last_add_ticks_le (p : Pacer) (now : Int) :
    p.last + (p.period * (p.poll now).ticks : Nat) ≤ (p.poll now).pacer.last := by
  rcases Nat.lt_or_ge p.limit (p.elapsed now) with h | h
  · rw [poll_of_lt h]
    show p.last + (p.period * p.limit : Nat) ≤ now
    have hmul : p.period * p.limit ≤ p.period * p.elapsed now :=
      Nat.mul_le_mul_left _ (Nat.le_of_lt h)
    have hle := p.period_mul_elapsed_le now
    have hlast := last_le_of_lt h
    omega
  · exact Int.le_of_eq (last_poll_of_le h).symm

theorem last_poll_le (p : Pacer) (now : Int) : (p.poll now).pacer.last ≤ max p.last now := by
  rcases Nat.lt_or_ge p.limit (p.elapsed now) with h | h
  · rw [poll_of_lt h]
    exact Int.le_max_right ..
  · rw [poll_of_le h]
    show p.last + (p.period * p.elapsed now : Nat) ≤ max p.last now
    have hle := p.period_mul_elapsed_le now
    omega

/-- A poll leaves less than a period before it that is not accounted for. -/
theorem lt_last_poll (hp : 0 < p.period) (now : Int) :
    now < (p.poll now).pacer.last + p.period := by
  rcases Nat.lt_or_ge p.limit (p.elapsed now) with h | h
  · rw [poll_of_lt h]
    show now < now + p.period
    omega
  · rw [poll_of_le h]
    show now < p.last + (p.period * p.elapsed now : Nat) + p.period
    have hlt : (now - p.last).toNat < p.period * (p.elapsed now + 1) := by
      rw [elapsed, Nat.max_eq_left hp]
      exact Nat.lt_mul_div_succ _ hp
    rw [Nat.mul_succ] at hlt
    omega

theorem elapsed_eq_zero (hp : 0 < p.period) (h : now < p.last + p.period) : p.elapsed now = 0 := by
  rw [elapsed, Nat.max_eq_left hp]
  exact Nat.div_eq_of_lt (by omega)

/-- A second poll at the same instant finds nothing. -/
theorem ticks_poll_poll (hp : 0 < p.period) (now : Int) :
    ((p.poll now).pacer.poll now).ticks = 0 := by
  have hq : 0 < (p.poll now).pacer.period := by rwa [period_poll]
  have hlt : now < (p.poll now).pacer.last + (p.poll now).pacer.period := by
    rw [period_poll]
    exact lt_last_poll hp now
  have hle := (p.poll now).pacer.ticks_poll_le_elapsed now
  rw [elapsed_eq_zero hq hlt] at hle
  exact Nat.le_zero.mp hle

/-- A pacer without a period accounts for nothing while it keeps up. -/
theorem pacer_poll_of_period_eq_zero (hp : p.period = 0) (h : p.elapsed now ≤ p.limit) :
    (p.poll now).pacer = p := by
  rw [poll_of_le h, hp, Nat.zero_mul]
  exact Pacer.ext hp.symm rfl (Int.add_zero _)

/-! ## Polls in turn -/

/-- The pacer after some polls. -/
def polled (p : Pacer) : List Int → Pacer
  | [] => p
  | now :: rest => (p.poll now).pacer.polled rest

/-- The ticks that some polls yield together. -/
def total (p : Pacer) (nows : List Int) : Nat :=
  (p.pollAll nows).foldr (fun due ticks => due.ticks + ticks) 0

/-- No poll finds more ticks than the limit, so that the pacer never skips ahead. -/
def KeepsUp (p : Pacer) : List Int → Prop
  | [] => True
  | now :: rest => p.elapsed now ≤ p.limit ∧ (p.poll now).pacer.KeepsUp rest

instance KeepsUp.decidable : (p : Pacer) → (nows : List Int) → Decidable (p.KeepsUp nows)
  | _, [] => inferInstanceAs (Decidable True)
  | p, now :: rest =>
    have := KeepsUp.decidable (p.poll now).pacer rest
    inferInstanceAs (Decidable (p.elapsed now ≤ p.limit ∧ (p.poll now).pacer.KeepsUp rest))

theorem total_nil (p : Pacer) : p.total [] = 0 := rfl

theorem total_cons (p : Pacer) (now : Int) (nows : List Int) :
    p.total (now :: nows) = (p.poll now).ticks + (p.poll now).pacer.total nows := rfl

/-- Polls change nothing but the instant up to which time is accounted for. -/
theorem polled_eq (p : Pacer) (nows : List Int) :
    p.polled nows = { p with last := (p.polled nows).last } := by
  induction nows generalizing p with
  | nil => rfl
  | cons now nows ih =>
    rw [polled, ih]
    simp only [period_poll, limit_poll]

theorem period_polled (p : Pacer) (nows : List Int) : (p.polled nows).period = p.period := by
  rw [polled_eq]

theorem limit_polled (p : Pacer) (nows : List Int) : (p.polled nows).limit = p.limit := by
  rw [polled_eq]

/-- All ticks are paid for, also those of stalls. -/
theorem last_add_total_le (p : Pacer) (nows : List Int) :
    p.last + (p.period * p.total nows : Nat) ≤ (p.polled nows).last := by
  induction nows generalizing p with
  | nil => simp only [total_nil, Nat.mul_zero, polled, Int.natCast_zero, Int.add_zero, Int.le_refl]
  | cons now nows ih =>
    have hpoll := p.last_add_ticks_le now
    have hrest := ih (p.poll now).pacer
    rw [period_poll] at hrest
    rw [total_cons, Nat.mul_add, polled]
    omega

/-- Time is accounted for up to the latest poll at most. -/
theorem last_polled_le (p : Pacer) (nows : List Int) :
    (p.polled nows).last ≤ nows.foldl max p.last := by
  induction nows generalizing p with
  | nil => exact Int.le_refl _
  | cons now nows ih =>
    have hmono : Monotone fun a : Int => nows.foldl max a :=
      List.foldl_monotone (fun b _ _ h => max_le_max_right b h) nows
    exact Int.le_trans (ih (p.poll now).pacer) (hmono (p.last_poll_le now))

/-- While the pacer keeps up, what it accounts for is what its ticks pay for. -/
theorem last_polled (h : p.KeepsUp nows) :
    (p.polled nows).last = p.last + (p.period * p.total nows : Nat) := by
  induction nows generalizing p with
  | nil => simp only [total_nil, Nat.mul_zero, polled, Int.natCast_zero, Int.add_zero]
  | cons now nows ih =>
    rw [polled, ih h.2, period_poll, total_cons, Nat.mul_add, last_poll_of_le h.1]
    omega

/-- Time is accounted for up to an instant, as far as whole periods go. -/
structure UpTo (p : Pacer) (now : Int) : Prop where
  last_le : p.last ≤ now
  lt_add_period : now < p.last + p.period

theorem upTo_poll (hp : 0 < p.period) (h : p.last ≤ now) : (p.poll now).pacer.UpTo now where
  last_le := by
    have hle := p.last_poll_le now
    rwa [Int.max_eq_right h] at hle
  lt_add_period := by
    rw [period_poll]
    exact lt_last_poll hp now

/-- Polls in the order of time lead up to the last of them. -/
theorem UpTo.polled (hp : 0 < p.period) (h : p.UpTo now) (hs : (now :: nows).Pairwise (· ≤ ·)) :
    (p.polled nows).UpTo (nows.getLastD now) := by
  induction nows generalizing p now with
  | nil => exact h
  | cons next nows ih =>
    obtain ⟨hnow, hs⟩ := List.pairwise_cons.mp hs
    have hnext := upTo_poll hp (Int.le_trans h.last_le (hnow next (List.mem_cons_self ..)))
    rw [List.getLastD_cons]
    exact ih (by rwa [period_poll]) hnext hs

/-- Polls in the order of time, from the instant accounted for on, none of which finds more
ticks than the limit. -/
structure Steady (p : Pacer) (nows : List Int) : Prop where
  ordered : (p.last :: nows).Pairwise (· ≤ ·)
  keepsUp : p.KeepsUp nows

/-- Steady polls yield the whole periods up to the last of them. -/
theorem total_eq_div (hp : 0 < p.period) (h : p.Steady nows) :
    ∃ d : Nat, nows.getLastD p.last = p.last + d ∧ p.total nows = d / p.period := by
  have hstart : p.UpTo p.last := ⟨Int.le_refl _, by omega⟩
  obtain ⟨hle, hlt⟩ := hstart.polled hp h.ordered
  rw [last_polled h.keepsUp] at hle hlt
  rw [period_polled] at hlt
  refine ⟨(nows.getLastD p.last - p.last).toNat, by omega, ?_⟩
  refine (Nat.div_eq_of_lt_le ?_ ?_).symm
  · rw [Nat.mul_comm]
    omega
  · rw [Nat.mul_comm, Nat.mul_succ]
    omega

/-! ## The rate -/

theorem period_start_pos {rate : Nat} (h : rate ≤ secondLength) (origin : Int) :
    0 < (start rate origin).period :=
  Nat.div_pos (Nat.max_le.mpr ⟨h, by decide⟩) (Nat.lt_of_lt_of_le Nat.one_pos (Nat.le_max_right ..))

theorem period_start_eq_zero {rate : Nat} (h : secondLength < rate) (origin : Int) :
    (start rate origin).period = 0 :=
  Nat.div_eq_of_lt (Nat.lt_of_lt_of_le h (Nat.le_max_left ..))

theorem poll_start_of_lt {rate : Nat} (h : secondLength < rate) :
    ((start rate 0).poll 1).ticks = 1 ∧ ((start rate 0).poll 1).pacer = start rate 0 := by
  have hp : (start rate 0).period = 0 := period_start_eq_zero h 0
  have he : (start rate 0).elapsed 1 = 1 := by
    rw [elapsed, hp]
    show (1 - 0 : Int).toNat / max 0 1 = 1
    decide
  have hle : (start rate 0).elapsed 1 ≤ (start rate 0).limit := by
    rw [he]
    exact Nat.le_max_right ..
  exact ⟨by rw [poll_of_le hle, he], pacer_poll_of_period_eq_zero hp hle⟩

/-- The whole periods of a time are at least what the rate asks for, rounded down. -/
theorem mul_div_le_div (d : Nat) {h : Nat} (hpos : 0 < h) (hle : h ≤ secondLength) :
    d * h / secondLength ≤ d / (secondLength / h) := by
  rw [Nat.le_div_iff_mul_le (Nat.div_pos hle hpos)]
  refine Nat.le_of_mul_le_mul_right ?_ hpos
  calc d * h / secondLength * (secondLength / h) * h
      = d * h / secondLength * (secondLength / h * h) := Nat.mul_assoc ..
    _ ≤ d * h / secondLength * secondLength := Nat.mul_le_mul_left _ (Nat.div_mul_le_self ..)
    _ ≤ d * h := Nat.div_mul_le_self ..

/-- The rate that the whole periods of a time come to is a bit more than the one asked for, as
less than a nanosecond is cut off each period. -/
theorem div_mul_le_mul (d : Nat) {h : Nat} (hpos : 0 < h) (hle : h ≤ secondLength) :
    d / (secondLength / h) * (secondLength - h + 1) ≤ d * h := by
  have hlt : secondLength < secondLength / h * h + h := Nat.lt_div_mul_add hpos
  calc d / (secondLength / h) * (secondLength - h + 1)
      ≤ d / (secondLength / h) * (secondLength / h * h) := Nat.mul_le_mul_left _ (by omega)
    _ = d / (secondLength / h) * (secondLength / h) * h := (Nat.mul_assoc ..).symm
    _ ≤ d * h := Nat.mul_le_mul_right _ (Nat.div_mul_le_self ..)

/-- A pacer that skips ahead is one started then. -/
theorem pacer_poll_of_lt {rate : Nat} {origin : Int} (hp : p.period = (start rate origin).period)
    (hl : p.limit = (start rate origin).limit) (h : p.limit < p.elapsed now) :
    (p.poll now).pacer = start rate now := by
  rw [poll_of_lt h]
  exact Pacer.ext hp hl rfl

/-- Up to a tick a nanosecond, polls in the order of time that never skip ahead yield together
the whole periods from the start to the last of them. So two such lists of polls with the same
end yield the same, and what they yield is the rate's share of the time, rounded down, or a bit
more. A poll that skips ahead yields the limit, and from there on the pacer answers as one that
is started then. -/
theorem pacing_exact (rate : Nat) (hr : rate ≤ secondLength) (origin : Int) :
    let h := max rate 1
    let p := start rate origin
    (∀ nows, p.Steady nows → ∃ d : Nat, nows.getLastD origin = origin + d ∧
      p.total nows = d / (secondLength / h) ∧
      d * h / secondLength ≤ p.total nows ∧ p.total nows * (secondLength - h + 1) ≤ d * h) ∧
    (∀ nows nows', p.Steady nows → p.Steady nows' →
      nows.getLastD origin = nows'.getLastD origin → p.total nows = p.total nows') ∧
    ∀ before now, (p.polled before).limit < (p.polled before).elapsed now →
      let due := (p.polled before).poll now
      due.ticks = max (h / 10) 1 ∧
        ∀ later, due.pacer.pollAll later = (start rate now).pollAll later := by
  intro h p
  have hpos : 0 < h := Nat.lt_of_lt_of_le Nat.one_pos (Nat.le_max_right ..)
  have hle : h ≤ secondLength := Nat.max_le.mpr ⟨hr, by decide⟩
  have hp : 0 < p.period := period_start_pos hr origin
  refine ⟨fun nows hs => ?_, fun nows nows' hs hs' hend => ?_, fun before now hlt => ?_⟩
  · obtain ⟨d, hd, ht⟩ := total_eq_div hp hs
    have ht' : p.total nows = d / (secondLength / h) := ht
    refine ⟨d, hd, ht', ?_, ?_⟩
    · rw [ht']
      exact mul_div_le_div d hpos hle
    · rw [ht']
      exact div_mul_le_mul d hpos hle
  · obtain ⟨d, hd, ht⟩ := total_eq_div hp hs
    obtain ⟨d', hd', ht'⟩ := total_eq_div hp hs'
    have hdd : d = d' := by
      have heq : p.last + (d : Int) = p.last + d' := hd.symm.trans (Eq.trans hend hd')
      omega
    rw [ht, ht', hdd]
  · refine ⟨?_, fun later => ?_⟩
    · rw [poll_of_lt hlt]
      exact p.limit_polled before
    · rw [pacer_poll_of_lt (p.period_polled before) (p.limit_polled before) hlt]

/-- Sixty ticks a second, polled four times in fifty milliseconds and again after a stall. -/
theorem pacing_exact_sixty :
    let p := start 60 0
    let nows : List Int := [0, 10000000, 17000000, 50000000]
    let due := (p.polled nows).poll 5000000000
    60 ≤ secondLength ∧ p.Steady nows ∧ p.total nows = 3 ∧
      p.Steady [50000000] ∧ p.total nows = p.total [50000000] ∧
      (p.polled nows).limit < (p.polled nows).elapsed 5000000000 ∧ due.ticks = 6 ∧
      due.pacer.pollAll [5017000000] = (start 60 5000000000).pollAll [5017000000] := by
  intro p nows due
  have hr : 60 ≤ secondLength := by decide
  obtain ⟨htotal, hsame, hskip⟩ := pacing_exact 60 hr 0
  have hs : p.Steady nows := ⟨by decide, by decide⟩
  have hs' : p.Steady [50000000] := ⟨by decide, by decide⟩
  have hlt : (p.polled nows).limit < (p.polled nows).elapsed 5000000000 := by decide
  obtain ⟨d, hd, ht, -⟩ := htotal nows hs
  have hd : (50000000 : Int) = 0 + d := hd
  obtain ⟨hticks, hlater⟩ := hskip nows 5000000000 hlt
  refine ⟨hr, hs, ?_, hs', hsame nows [50000000] hs hs' rfl, hlt, hticks, hlater _⟩
  rw [ht, show d = 50000000 by omega]
  rfl

/-- No time counts twice, in whatever order a pacer is polled, exactly at rates up to a tick a
nanosecond: there the ticks of all polls together, each taken for a period or at least a
nanosecond, come to no more than the time from the start to the latest poll, and a second poll
at the same instant finds nothing. -/
theorem credits_no_time_twice_iff (rate : Nat) :
    ((∀ origin nows,
      (((start rate origin).total nows * max (secondLength / max rate 1) 1 : Nat) : Int) ≤
        nows.foldl max origin - origin) ↔ rate ≤ secondLength) ∧
    ((∀ origin nows now,
      ((((start rate origin).polled nows).poll now).pacer.poll now).ticks = 0) ↔
        rate ≤ secondLength) := by
  refine ⟨⟨fun h => ?_, fun hr origin nows => ?_⟩, fun h => ?_, fun hr origin nows now => ?_⟩
  · -- two polls a nanosecond after the start yield a tick each
    refine Nat.le_of_not_lt fun hr => absurd (h 0 [1, 1]) ?_
    obtain ⟨hticks, hpacer⟩ := poll_start_of_lt hr
    rw [total_cons, hpacer, total_cons, hticks, total_nil]
    have hone : 1 ≤ max (secondLength / max rate 1) 1 := Nat.le_max_right ..
    show ¬ _ ≤ (1 : Int) - 0
    omega
  · have hp := period_start_pos hr origin
    rw [show max (secondLength / max rate 1) 1 = (start rate origin).period from
      Nat.max_eq_left hp, Nat.mul_comm]
    have hpaid : origin + ((start rate origin).period * (start rate origin).total nows : Nat) ≤
        ((start rate origin).polled nows).last := last_add_total_le ..
    have hlast : ((start rate origin).polled nows).last ≤ nows.foldl max origin :=
      last_polled_le ..
    omega
  · refine Nat.le_of_not_lt fun hr => absurd (h 0 [] 1) ?_
    obtain ⟨hticks, hpacer⟩ := poll_start_of_lt hr
    rw [polled, hpacer, hticks]
    exact Nat.one_ne_zero
  · refine ticks_poll_poll ?_ now
    rw [period_polled]
    exact period_start_pos hr origin

/-- At two ticks a nanosecond, a second poll at the same instant yields all ticks again, twice
as many as there is time for. -/
theorem credits_time_twice_at_two_gigahertz :
    let p := start 2000000000 0
    (p.pollAll [100, 100]).map Due.ticks = [100, 100] ∧
      ¬ ((p.total [100, 100] * max (secondLength / max 2000000000 1) 1 : Nat) : Int) ≤
        [100, 100].foldl max 0 - 0 := by
  decide

end Chip8.Pacer
