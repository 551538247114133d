import Chip8.Log

/-!
# Pacing

A pacer tells how often something periodic is due. It accounts for whole periods
only, so that a remainder is not lost, and after a stall it makes up for no more
than a tenth of a second. Instants are nanoseconds from an arbitrary origin.

* `ticks_poll_le`: no poll yields more than the limit of the pacer.
-/

namespace Chip8

/-- Instructions a second, unless told otherwise. -/
abbrev defaultRate : Nat := 500

/-- Nanoseconds in a second. -/
abbrev secondLength : Nat := 1000000000

/-- The schedule of something periodic. -/
@[ext] structure Pacer where
  /-- The length of a period in nanoseconds, rounded down. -/
  period : Nat
  /-- The most ticks that one poll yields. -/
  limit : Nat
  /-- The instant up to which ticks are accounted for. -/
  last : Int
deriving DecidableEq, Repr

namespace Pacer

/-- The outcome of a poll. -/
structure Due where
  /-- The number of ticks due. -/
  ticks : Nat
  /-- The pacer after the poll. -/
  pacer : Pacer
  /-- The records logged. -/
  log : List Record

/-- A pacer for a number of ticks a second, at least one, from an instant on. -/
def start (rate : Nat) (origin : Int) : Pacer where
  period := secondLength / max rate 1
  limit := max (max rate 1 / 10) 1
  last := origin

/-- The whole periods from the last instant accounted for up to `now`. Periods
shorter than a nanosecond count as one. -/
def elapsed (p : Pacer) (now : Int) : Nat := (now - p.last).toNat / max p.period 1

/-- The ticks due at an instant. If there are more than the limit, the pacer skips
ahead to the instant. -/
def poll (p : Pacer) (now : Int) : Due :=
  let ticks := p.elapsed now
  if p.limit < ticks then ⟨p.limit, { p with last := now }, [.behind ticks]⟩
  else ⟨ticks, { p with last := p.last + (p.period * ticks : Nat) }, []⟩

/-- The ticks due at each of some instants, polled in turn. -/
def pollAll (p : Pacer) : List Int → List Due
  | [] => []
  | now :: rest =>
    let due := p.poll now
    due :: due.pacer.pollAll rest

theorem ticks_poll_le (p : Pacer) (now : Int) : (p.poll now).ticks ≤ p.limit := by
  simp only [poll]
  split
  · exact Nat.le_refl _
  · next h => exact Nat.le_of_not_lt h

end Pacer

end Chip8
