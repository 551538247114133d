import Chip8.Proofs.History

/-!
# The timers over a run

FX15 and FX18 put a register into a timer, and a reset puts zero into both. Everything else leaves
them alone but for the timer ticks, which take one from each that is not zero, whatever the
emulator is doing. So a timer is known from what was last put into it and from how many timer ticks
came since.

* `puts?`, `timer_perform`: what a command puts into a timer, and what a command makes of one.
* `LastPut`: what was last put into a timer in a run from power-on, and what came since.
* `timers_closed_form`: the timers after any run.
-/

namespace Chip8

/-- One of the two timers. -/
inductive Timer where
  /-- The delay timer. -/
  | delay
  /-- The sound timer. -/
  | sound
deriving DecidableEq

/-- The value of a timer. -/
def Timers.get (s : Timers) : Timer → Byte
  | .delay => s.delay
  | .sound => s.sound

namespace Timer

/-- The instruction that puts register `x` into the timer. -/
def setter (x : Byte) : Timer → Instruction
  | .delay => .setDelay x
  | .sound => .setSound x

/-- The opcode of it, with zero for the register: FX15 or FX18. -/
def opcode : Timer → Word
  | .delay => 0xF015
  | .sound => 0xF018

theorem decode_eq_setter_iff {t : Timer} {op : Word} {x : Byte} :
    Instruction.decode op = .ok (t.setter x) ↔ op &&& 0xF0FF = t.opcode ∧ Opcode.x op = x := by
  cases t with
  | delay => exact Instruction.decode_eq_setDelay_iff
  | sound => exact Instruction.decode_eq_setSound_iff

end Timer

namespace Timers

theorem toNat_get_tick (s : Timers) (t : Timer) : (s.tick.get t).toNat = (s.get t).toNat - 1 := by
  cases t with
  | delay => exact toNat_countDown s.delay
  | sound => exact toNat_countDown s.sound

theorem isSounding_iff {s : Timers} : s.isSounding = true ↔ 0 < (s.get .sound).toNat := by
  rw [isSounding, bne_iff_ne, ne_eq, ← BitVec.toNat_inj, Nat.pos_iff_ne_zero]
  rfl

end Timers

namespace Machine

variable {i : Instruction} {t : Timer}

theorem get_timers_effect_setter (m : Machine) (x : Byte) (t : Timer) :
    (m.effect (t.setter x)).timers.get t = m.reg x := by
  cases t <;> rfl

/-- No other instruction touches the timer. -/
theorem get_timers_effect_of_ne (h : ∀ x, i ≠ t.setter x) (m : Machine) :
    (m.effect i).timers.get t = m.timers.get t := by
  rw [timers_effect]
  cases i with
  | setDelay x =>
    cases t with
    | delay => exact absurd rfl (h x)
    | sound => rfl
  | setSound x =>
    cases t with
    | delay => rfl
    | sound => exact absurd rfl (h x)
  | _ => rfl

end Machine

namespace Emulator

variable {e : Emulator} {c : Command} {t : Timer} {v : Byte}

/-- The value of a timer. -/
def timer (e : Emulator) (t : Timer) : Byte := e.machine.timers.get t

/-! ## One command -/

/-- What a command puts into a timer: VX, if it executes FX15 or FX18, or else zero, if it is a
reset. -/
def puts? (t : Timer) (e : Emulator) : Command → Option Byte
  | .tick => (e.executes? .tick).bind fun op =>
    if op &&& 0xF0FF = t.opcode then some (e.machine.reg (Opcode.x op)) else none
  | .reset => some 0
  | _ => none

theorem puts?_eq_some_iff : e.puts? t c = some v ↔
    (c = .tick ∧ ∃ op, e.Executes op ∧ op &&& 0xF0FF = t.opcode ∧
      e.machine.reg (Opcode.x op) = v) ∨
    (c = .reset ∧ 0 = v) := by
  cases c with
  | tick => simp [puts?, Option.bind_eq_some_iff, executes?_eq_some_iff]
  | reset => simp [puts?]
  | _ => simp [puts?]

theorem timer_tick (e : Emulator) (t : Timer) :
    e.tick.emulator.timer t = (e.puts? t .tick).getD (e.timer t) := by
  rcases e.tick_executes_cases with ⟨op, i, hx, hd, he⟩ | ⟨hn, state, he⟩
  · rw [he, timer, machine_after, puts?, executes?_eq_some_iff.mpr ⟨rfl, hx⟩, Option.bind_some]
    split
    · next ho =>
      cases hd.symm.trans (Timer.decode_eq_setter_iff.mpr ⟨ho, rfl⟩)
      exact e.advanced.get_timers_effect_setter _ t
    · next ho =>
      have hi : ∀ x, i ≠ t.setter x := by
        rintro x rfl
        exact ho (Timer.decode_eq_setter_iff.mp hd).1
      exact e.advanced.get_timers_effect_of_ne hi
  · have hop : e.executes? .tick = none :=
      Option.eq_none_iff_forall_ne_some.mpr fun op h => hn op (executes?_eq_some_iff.mp h).2
    rw [he, puts?, hop]
    rfl

/-- The other commands leave the timers alone. -/
theorem timers_perform_of_ne (ht : c ≠ .tick) (hc : c ≠ .tickTimers) (hr : c ≠ .reset) :
    (e.perform c).emulator.machine.timers = e.machine.timers := by
  have hstep := e.step_perform c
  generalize (e.perform c).emulator = e' at hstep ⊢
  cases hstep with
  | execute | halt => exact absurd rfl ht
  | tickTimers => exact absurd rfl hc
  | reset => exact absurd rfl hr
  | stay | load | record | resume | takeDrawFlag => rfl

/-- A timer after a command that puts nothing into it: one less after a timer tick. -/
def countedBy (n : Nat) (c : Command) : Nat := if c = .tickTimers then n - 1 else n

/-- A timer after a command: what was put into it, or else what is left of it. -/
theorem timer_perform (e : Emulator) (c : Command) (t : Timer) :
    ((e.perform c).emulator.timer t).toNat =
      ((e.puts? t c).map BitVec.toNat).getD (countedBy (e.timer t).toNat c) := by
  cases c with
  | tick =>
    have ht : (e.perform .tick).emulator.timer t = _ := e.timer_tick t
    rw [ht]
    cases e.puts? t .tick <;> rfl
  | tickTimers => exact e.machine.timers.toNat_get_tick t
  | reset =>
    rw [perform, reset_eq]
    cases t <;> rfl
  | load | setKey | takeDrawFlag | peek | pixel =>
    rw [timer, timers_perform_of_ne (by simp) (by simp) (by simp)]
    rfl

/-! ## Runs -/

theorem foldl_countedBy (cs : List Command) (n : Nat) :
    cs.foldl countedBy n = n - cs.count .tickTimers := by
  induction cs generalizing n with
  | nil => rfl
  | cons c cs ih =>
    rw [List.foldl_cons, ih, List.count_cons, countedBy]
    by_cases h : c = .tickTimers
    · rw [if_pos h, if_pos (beq_iff_eq.mpr h)]
      omega
    · rw [if_neg h, if_neg (by simpa using h), Nat.add_zero]

/-- In a run from power-on, `v` was last put into a timer, and the commands `rest` came after that.
-/
inductive LastPut (random : RandomSource) (cs : List Command) (t : Timer) :
    Byte → List Command → Prop
  /-- The latest command that put anything put `v`. -/
  | put {v rest} (h : (fresh random).Latest (puts? t) cs v rest) : LastPut random cs t v rest
  /-- No command put anything, and the timer was zero at power-on. -/
  | powerOn (h : (fresh random).Never (fun f c => (f.puts? t c).isSome) cs) :
    LastPut random cs t 0 cs

theorem exists_lastPut (random : RandomSource) (cs : List Command) (t : Timer) :
    ∃ v rest, LastPut random cs t v rest := by
  rcases (fresh random).exists_latest_or_never (puts? t) cs with ⟨v, rest, h⟩ | h
  · exact ⟨v, rest, .put h⟩
  · exact ⟨0, cs, .powerOn h⟩

theorem LastPut.timer_run {random : RandomSource} {cs rest : List Command}
    (h : LastPut random cs t v rest) :
    (((fresh random).run cs).emulator.timer t).toNat = v.toNat - rest.count .tickTimers := by
  -- between two commands that put something, a timer depends on the timer ticks alone
  have keep : ∀ (e : Emulator) c, e.puts? t c = none →
      ((e.perform c).emulator.timer t).toNat = countedBy (e.timer t).toNat c := by
    intro e c hc
    rw [timer_perform, hc]
    rfl
  rw [← foldl_countedBy]
  cases h with
  | put h =>
    refine cell_run_of_latest (fun e => (e.timer t).toNat) BitVec.toNat countedBy
      (fun e c v hv => ?_) keep h
    rw [timer_perform, hv]
    rfl
  | powerOn h =>
    rw [cell_run_of_never (fun e => (e.timer t).toNat) countedBy keep h]
    cases t <;> rfl

/-- After any run from power-on, a timer is at the value that was last put into it, less one for
each timer tick since, or at zero, if there were more of them; and the tone sounds if that is above
zero for the sound timer. A timer is not moved by anything but timer ticks, resets, and ticks that
execute FX15 or FX18, and a timer tick counts in every run state. -/
theorem timers_closed_form :
    (∀ (random : RandomSource) (cs : List Command) (t : Timer),
      let e := ((fresh random).run cs).emulator
      (∃ v rest, LastPut random cs t v rest) ∧
      ∀ v rest, LastPut random cs t v rest →
        (e.timer t).toNat = v.toNat - rest.count .tickTimers ∧
        (t = .sound →
          (e.machine.timers.isSounding = true ↔ 0 < v.toNat - rest.count .tickTimers))) ∧
    (∀ (e : Emulator) (c : Command) (t : Timer), (e.perform c).emulator.timer t ≠ e.timer t →
      c = .tickTimers ∨ c = .reset ∨
        (c = .tick ∧ ∃ op, e.Executes op ∧ op &&& 0xF0FF = t.opcode)) ∧
    ∀ (e : Emulator) (t : Timer),
      ((e.perform .tickTimers).emulator.timer t).toNat = (e.timer t).toNat - 1 := by
  refine ⟨fun random cs t => ⟨exists_lastPut random cs t, fun v rest h => ?_⟩,
    fun e c t hne => ?_, fun e t => e.machine.timers.toNat_get_tick t⟩
  · refine ⟨h.timer_run, ?_⟩
    rintro rfl
    rw [← h.timer_run]
    exact Timers.isSounding_iff
  · have hc := e.timer_perform c t
    cases hp : e.puts? t c with
    | some v =>
      rcases puts?_eq_some_iff.mp hp with ⟨hc, op, hx, ho, -⟩ | ⟨hc, -⟩
      · exact .inr (.inr ⟨hc, op, hx, ho⟩)
      · exact .inr (.inl hc)
    | none =>
      rw [hp] at hc
      refine .inl (Decidable.byContradiction fun hn => hne (BitVec.eq_of_toNat_eq ?_))
      rw [hc]
      exact if_neg hn

/-- A program sets both timers to five, waits for a key and halts; the timers count down at each of
three timer ticks meanwhile, and the tone still sounds. -/
theorem timers_closed_form_wait_halt :
    let rom : List Byte := [0x60, 0x05, 0xF0, 0x15, 0xF0, 0x18, 0xF1, 0x0A, 0x00, 0xEE]
    let ds : List Command := [.load rom, .tick, .tick]
    let rest : List Command :=
      [.tickTimers, .tick, .tickTimers, .setKey 3 true, .tick, .tickTimers]
    let e := ((ofSeed 7).run (ds ++ .tick :: rest)).emulator
    let f := ((ofSeed 7).run ds).emulator
    LastPut (.ofSeed 7) (ds ++ .tick :: rest) .sound 5 rest ∧ e.state = .halted ∧
      (e.timer .sound).toNat = 5 - 3 ∧ e.machine.timers.isSounding = true ∧
      (f.perform .tick).emulator.timer .sound ≠ f.timer .sound ∧
      ∃ op, f.Executes op ∧ op &&& 0xF0FF = 0xF018 := by
  intro rom ds rest e f
  obtain ⟨hrun, hmoved, -⟩ := timers_closed_form
  obtain ⟨hput, hnever, hne, hs⟩ : f.puts? .sound .tick = some 5 ∧
      (f.perform .tick).emulator.Never (fun f c => (f.puts? .sound c).isSome) rest ∧
      (f.perform .tick).emulator.timer .sound ≠ f.timer .sound ∧ e.state = .halted := by
    decide +kernel
  have hlast : LastPut (.ofSeed 7) (ds ++ .tick :: rest) .sound 5 rest :=
    .put ⟨ds, .tick, rfl, hput, hnever⟩
  obtain ⟨htimer, hsound⟩ := (hrun (.ofSeed 7) (ds ++ .tick :: rest) .sound).2 5 rest hlast
  refine ⟨hlast, hs, htimer, (hsound rfl).mpr (by decide), hne, ?_⟩
  rcases hmoved f .tick .sound hne with h | h | ⟨-, hop⟩
  · cases h
  · cases h
  · exact hop

end Emulator

end Chip8
