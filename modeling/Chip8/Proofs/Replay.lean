import Chip8.Proofs.History

/-!
# Replaying random bytes

A seed fixes a stream of words. CXNN takes one word for its byte, and nothing else takes any: no
other instruction, no tick that fails, no load, key event or reset. So the position in the stream
is the number of CXNN executed, and every random byte of a run is known from the seed and from how
many came before it.

* `random_perform_of_not_executing`, `tick_of_isRandom`: a command that leaves the stream alone,
  and a tick that takes a word.
* `random_run`: the position after a run.
* `random_replay`: the random bytes of a run from a seed.
-/

namespace Chip8

/-- The opcode is of the form CXNN. -/
def Opcode.IsRandom (op : Word) : Prop := op &&& 0xF000 = 0xC000

instance : DecidablePred Opcode.IsRandom := fun op =>
  inferInstanceAs (Decidable (op &&& 0xF000 = 0xC000))

/-- The source after `n` more draws. -/
def RandomSource.advance (s : RandomSource) (n : Nat) : RandomSource := ⟨s.key, s.drawn + n⟩

theorem RandomSource.advance_advance (s : RandomSource) (m n : Nat) :
    (s.advance m).advance n = s.advance (m + n) := by
  rw [advance, advance, advance, Nat.add_assoc]

theorem Machine.random_effect_of_ne {i : Instruction} (h : ∀ x mask, i ≠ .random x mask)
    (m : Machine) : (m.effect i).random = m.random := by
  rw [random_effect]
  cases i with
  | random x mask => exact absurd rfl (h x mask)
  | _ => rfl

namespace Emulator

variable {e : Emulator} {c : Command} {op : Word}

/-! ## One command -/

/-- A command that executes no CXNN leaves the stream where it is. -/
theorem random_perform_of_not_executing (h : ¬ Executing Opcode.IsRandom e c) :
    (e.perform c).emulator.machine.random = e.machine.random := by
  have hstep := e.step_perform c
  generalize (e.perform c).emulator = e' at hstep ⊢
  cases hstep with
  | @execute op i hx hd =>
    have hi : ∀ x mask, i ≠ .random x mask := by
      rintro x mask rfl
      have ho : Opcode.IsRandom op := (Instruction.decode_eq_random_iff.mp hd).1
      exact h (hx.executing_iff.mpr ho)
    rw [machine_after]
    exact e.advanced.random_effect_of_ne hi
  | stay | load | halt | tickTimers | record | resume | takeDrawFlag => rfl
  -- a reset makes every part anew but this one
  | reset => exact random_fresh _

/-- CXNN takes the next word and puts its low byte, masked by NN, into register X. -/
theorem tick_of_isRandom (hx : e.Executes op) (ho : Opcode.IsRandom op) :
    e.tick.emulator.machine.random = e.machine.random.advance 1 ∧
      e.tick.emulator.machine.reg (Opcode.x op) = Opcode.kk op &&& e.machine.random.next := by
  have hd := Instruction.decode_eq_random_iff.mpr ⟨ho, rfl, rfl⟩
  rw [hx.emulator_tick hd, machine_after]
  refine ⟨rfl, ?_⟩
  show (e.advanced.registers.set (Opcode.x op) _).get (Opcode.x op) = _
  rw [Registers.get_set, if_pos rfl]
  rfl

/-! ## Runs -/

theorem random_perform (e : Emulator) (c : Command) :
    (e.perform c).emulator.machine.random =
      e.machine.random.advance ((e.executes? c).toList.countP (Opcode.IsRandom ·)) := by
  cases hop : e.executes? c with
  | none =>
    refine random_perform_of_not_executing ?_
    rintro ⟨hc, op, hx, -⟩
    cases hop.symm.trans (executes?_eq_some_iff.mpr ⟨hc, hx⟩)
  | some op =>
    obtain ⟨rfl, hx⟩ := executes?_eq_some_iff.mp hop
    rw [Option.toList_some, List.countP_singleton]
    by_cases ho : Opcode.IsRandom op
    · rw [if_pos (decide_eq_true ho)]
      exact (tick_of_isRandom hx ho).1
    · rw [if_neg (by simpa using ho)]
      exact random_perform_of_not_executing (mt hx.executing_iff.mp ho)

/-- The position after a run: one word for every CXNN. -/
theorem random_run (e : Emulator) (cs : List Command) :
    (e.run cs).emulator.machine.random =
      e.machine.random.advance ((e.executed cs).countP (Opcode.IsRandom ·)) := by
  induction cs generalizing e with
  | nil => rfl
  | cons c cs ih =>
    rw [run, ih, random_perform, RandomSource.advance_advance, executed, List.countP_append]

/-- From a seed, a run has taken as many words of the stream of the seed as it has executed CXNN.
The next CXNN takes the word after these and puts its low byte, masked by NN, into register X.
A command that executes no CXNN takes no word. -/
theorem random_replay (seed : BitVec 64) (cs : List Command) :
    let e := ((ofSeed seed).run cs).emulator
    let k := ((ofSeed seed).executed cs).countP (Opcode.IsRandom ·)
    let key := (RandomSource.ofSeed seed).key
    e.machine.random = ⟨key, k⟩ ∧
    (∀ op, e.Executes op → Opcode.IsRandom op →
      e.tick.emulator.machine.reg (Opcode.x op) =
        Opcode.kk op &&& (RandomSource.word key k).setWidth 8) ∧
    ∀ c, ¬ Executing Opcode.IsRandom e c → (e.perform c).emulator.machine.random = ⟨key, k⟩ := by
  intro e k key
  have hrandom : e.machine.random = ⟨key, k⟩ := by
    rw [random_run]
    exact congrArg _ (Nat.zero_add _)
  refine ⟨hrandom, fun op hx ho => ?_, fun c hc => ?_⟩
  · rw [(tick_of_isRandom hx ho).2, RandomSource.next, hrandom]
  · rw [random_perform_of_not_executing hc, hrandom]

/-- A program that draws a byte, waits for a key and draws a nibble: the nibble is that of the
second word of the seed, whatever key was pressed, and a reset would leave that word to come. -/
theorem random_replay_across_wait :
    let cs : List Command := [.load [0xC1, 0xFF, 0xF3, 0x0A, 0xC2, 0x0F], .tick, .tick, .tick,
      .setKey 5 true]
    let e := ((ofSeed 42).run cs).emulator
    let key := (RandomSource.ofSeed 42).key
    e.Executes 0xC20F ∧
      e.tick.emulator.machine.reg 2 = 0x0F &&& (RandomSource.word key 1).setWidth 8 ∧
      ¬ Executing Opcode.IsRandom e .reset ∧ e.reset.emulator.machine.random = ⟨key, 1⟩ := by
  intro cs e key
  obtain ⟨-, hbyte, hrest⟩ := random_replay 42 cs
  have hop : e.executes? .tick = some 0xC20F := by decide +kernel
  have hx := (executes?_eq_some_iff.mp hop).2
  have hexecuted : (ofSeed 42).executed cs = [0xC1FF, 0xF30A] := by decide +kernel
  have hk : ((ofSeed 42).executed cs).countP (Opcode.IsRandom ·) = 1 := by
    rw [hexecuted]
    decide
  have hreset : ¬ Executing Opcode.IsRandom e .reset := fun h => nomatch h.1
  rw [hk] at hbyte hrest
  refine ⟨hx, ?_, hreset, hrest .reset hreset⟩
  have hnibble := hbyte 0xC20F hx (by decide)
  rw [show Opcode.x 0xC20F = 2 by decide, show Opcode.kk 0xC20F = 0x0F by decide] at hnibble
  simp only [e, key]
  exact hnibble

end Emulator

end Chip8
