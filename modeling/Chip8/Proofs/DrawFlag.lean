import Chip8.Proofs.History

/-!
# The draw flag

The flag is up if something was drawn since it was last taken or the machine was reset: 00E0
and DXYN raise it, and nothing else touches the screen but a reset, which blanks the screen and
lowers the flag. So a presenter who copies the screen whenever it takes the flag and finds it up
shows what is on the screen, except that a reset goes unseen until something is drawn.

* `flow_eq_redraw_iff`, `draws_iff_of_decode`: the instructions that ask for a redraw.
* `draw_flag_exact`: the flag after any run.
* `shown`: the picture of a presenter; `stale_after_reset`: it may be out of date after a reset.
* `presented_picture`: it is out of date in no other way.
-/

namespace Chip8

/-- The opcode is 00E0 or of the form DXYN. -/
def Opcode.Draws (op : Word) : Prop := op = 0x00E0 ∨ op &&& 0xF000 = 0xD000

theorem Instruction.flow_eq_redraw_iff {i : Instruction} : i.flow = .redraw ↔ i.draws = true := by
  cases i <;> simp [flow, draws]

theorem Instruction.draws_iff_of_decode {op : Word} {i : Instruction} (h : decode op = .ok i) :
    i.draws = true ↔ Opcode.Draws op := by
  constructor
  · intro hi
    cases i with
    | clear => exact .inl (decode_eq_clear_iff.mp h)
    | draw x y rows => exact .inr (decode_eq_draw_iff.mp h).1
    | _ => cases hi
  · rintro (ho | ho)
    · cases h.symm.trans (decode_eq_clear_iff.mpr ho)
      rfl
    · cases h.symm.trans (decode_eq_draw_iff.mpr ⟨ho, rfl, rfl, rfl⟩)
      rfl

theorem Machine.screen_effect_of_not_draws {i : Instruction} (h : i.draws = false) (m : Machine) :
    (m.effect i).screen = m.screen := by
  rw [screen_effect]
  cases i with
  | clear | draw => cases h
  | _ => rfl

namespace Emulator

variable {e : Emulator} {c : Command} {cs : List Command}

/-! ## The flag -/

/-- The command lowers the draw flag. -/
def Lowers (_ : Emulator) (c : Command) : Prop := c = .reset ∨ c = .takeDrawFlag

theorem drawFlag_after (e : Emulator) (i : Instruction) :
    (e.after i).drawFlag = (i.draws || e.drawFlag) := by
  cases i <;> rfl

/-- An instruction that does not draw leaves the screen alone. -/
theorem screen_after {i : Instruction} (h : i.draws = false) :
    (e.after i).machine.screen = e.machine.screen := by
  rw [machine_after]
  exact e.advanced.screen_effect_of_not_draws h

theorem drawFlag_tick (e : Emulator) :
    e.tick.emulator.drawFlag = true ↔ Executing Opcode.Draws e .tick ∨ e.drawFlag = true := by
  rcases e.tick_executes_cases with ⟨op, i, hx, hd, he⟩ | ⟨hx, state, he⟩
  · rw [he, drawFlag_after, Bool.or_eq_true, hx.executing_iff,
      Instruction.draws_iff_of_decode hd]
  · have hn : ¬ Executing Opcode.Draws e .tick := fun ⟨_, op, h, _⟩ => hx op h
    rw [he, or_iff_right hn]

/-- A command that is none of these leaves the flag and the screen alone. -/
theorem drawFlag_perform_of_ne (ht : c ≠ .tick) (hl : ¬ Lowers e c) :
    (e.perform c).emulator.drawFlag = e.drawFlag ∧
      (e.perform c).emulator.machine.screen = e.machine.screen := by
  have hstep := e.step_perform c
  generalize (e.perform c).emulator = e' at hstep ⊢
  cases hstep with
  | execute | halt => exact absurd rfl ht
  | reset => exact absurd (.inl rfl) hl
  | takeDrawFlag => exact absurd (.inr rfl) hl
  | stay | load | tickTimers | record | resume => exact ⟨rfl, rfl⟩

theorem drawFlag_perform (e : Emulator) (c : Command) :
    (e.perform c).emulator.drawFlag = true ↔
      Executing Opcode.Draws e c ∨ (e.drawFlag = true ∧ ¬ Lowers e c) := by
  by_cases ht : c = .tick
  · subst ht
    have hl : ¬ Lowers e .tick := by rintro (h | h) <;> cases h
    rw [iff_true_intro hl, and_true]
    exact e.drawFlag_tick
  · have hn : ¬ Executing Opcode.Draws e c := fun h => ht h.1
    rw [or_iff_right hn]
    by_cases hl : Lowers e c
    · rw [iff_false_intro (not_not_intro hl), and_false]
      rcases hl with rfl | rfl <;> exact iff_of_false nofun id
    · rw [(drawFlag_perform_of_ne ht hl).1, iff_true_intro hl, and_true]

/-- The draw flag is up after a run if a tick of it executed 00E0 or DXYN and no later command
was a reset or took the flag. An instruction that is carried out asks for a redraw just if it is
one of these two, and changes the screen only then. -/
theorem draw_flag_exact :
    (∀ (random : RandomSource) (cs : List Command),
      ((fresh random).run cs).emulator.drawFlag = true ↔
        (fresh random).Since (Executing Opcode.Draws) Lowers cs) ∧
    (∀ (i : Instruction) (m m' : Machine) (flow : Flow), Machine.execute i m = .ok flow m' →
      (flow = .redraw ↔ i.draws = true) ∧ (m'.screen ≠ m.screen → i.draws = true)) ∧
    ∀ (op : Word) (i : Instruction), Instruction.decode op = .ok i →
      (i.draws = true ↔ op = 0x00E0 ∨ op &&& 0xF000 = 0xD000) := by
  refine ⟨fun random cs => ?_, fun i m m' flow h => ?_,
    fun op i hd => Instruction.draws_iff_of_decode hd⟩
  · rw [flag_run_iff (fun e => e.drawFlag = true) drawFlag_perform]
    exact or_iff_left fun ⟨h, _⟩ => nomatch h
  · rw [Machine.execute_eq] at h
    split at h
    · cases h
    · cases h
      refine ⟨Instruction.flow_eq_redraw_iff, fun hs => ?_⟩
      cases hd : i.draws with
      | true => rfl
      | false => exact absurd (m.screen_effect_of_not_draws hd) hs

/-- A program that clears the screen, paints a sprite of one row and fails to return: the flag was
taken in between and is up again, as painting asks for a redraw. -/
theorem draw_flag_exact_after_take :
    let cs : List Command :=
      [.load [0x00, 0xE0, 0xD0, 0x11, 0x00, 0xEE], .tick, .takeDrawFlag, .tick, .tick]
    let i : Instruction := .draw 0 1 1
    let m := Machine.fresh (.ofSeed 7)
    (ofSeed 7).Since (Executing Opcode.Draws) Lowers cs ∧ Instruction.decode 0xD011 = .ok i ∧
      Machine.execute i m = .ok .redraw (m.effect i) ∧ i.draws = true := by
  intro cs i m
  obtain ⟨hflag, hexecute, -⟩ := draw_flag_exact
  have hi : Instruction.decode 0xD011 = .ok i :=
    Instruction.decode_eq_draw_iff.mpr ⟨by decide, by decide, by decide, by decide⟩
  have hr : m.refusal i = none := by decide
  have hm : Machine.execute i m = .ok .redraw (m.effect i) := by
    rw [Machine.execute_eq, hr]
    rfl
  refine ⟨(hflag (.ofSeed 7) cs).mp ?_, hi, hm, (hexecute i m _ _ hm).1.mp rfl⟩
  decide +kernel

/-! ## The picture of a presenter -/

/-- A presenter copies the screen: the draw flag was taken and found up. -/
def Copies (e : Emulator) (c : Command) : Prop :=
  c = .takeDrawFlag ∧ (e.perform c).result = .flag true

instance (e : Emulator) (c : Command) : Decidable (e.Copies c) :=
  inferInstanceAs (Decidable (c = .takeDrawFlag ∧ (e.perform c).result = .flag true))

/-- The picture that a presenter shows after a command, from the one shown before. -/
def present (e : Emulator) (picture : Screen) (c : Command) : Screen :=
  if e.Copies c then (e.perform c).emulator.machine.screen else picture

/-- The picture that a presenter shows after a run. -/
def shown (e : Emulator) (picture : Screen) : List Command → Screen
  | [] => picture
  | c :: cs => (e.perform c).emulator.shown (e.present picture c) cs

/-- The command resets the machine. -/
def Resets (_ : Emulator) (c : Command) : Prop := c = .reset

/-- While the draw flag is down, the picture is what is on the screen, or else the screen is
blank and `unseen` holds. -/
def Faithful (e : Emulator) (picture : Screen) (unseen : Prop) : Prop :=
  e.drawFlag = false → picture = e.machine.screen ∨ (e.machine.screen = .blank ∧ unseen)

variable {picture : Screen} {unseen unseen' : Prop}

theorem Faithful.imp (h : e.Faithful picture unseen) (hu : unseen → unseen') :
    e.Faithful picture unseen' :=
  fun hf => (h hf).imp_right fun ⟨hb, hs⟩ => ⟨hb, hu hs⟩

theorem copies_takeDrawFlag : e.Copies .takeDrawFlag ↔ e.drawFlag = true := by
  simp [Copies, perform, takeDrawFlag, Response.map]

theorem shown_append (e : Emulator) (picture : Screen) (cs ds : List Command) :
    e.shown picture (cs ++ ds) = (e.run cs).emulator.shown (e.shown picture cs) ds := by
  induction cs generalizing e picture with
  | nil => rfl
  | cons c cs ih => exact ih _ _

theorem screen_reset (e : Emulator) : e.reset.emulator.machine.screen = .blank := by
  rw [reset_eq]
  rfl

/-- A command other than a reset that leaves the flag down leaves the screen alone, and takes the
flag or finds it down. -/
theorem screen_perform (hc : c ≠ .reset) (hf : (e.perform c).emulator.drawFlag = false) :
    (e.perform c).emulator.machine.screen = e.machine.screen ∧
      (e.Copies c ∨ e.drawFlag = false) := by
  by_cases htick : c = .tick
  · subst htick
    have hf' : e.tick.emulator.drawFlag = false := hf
    show e.tick.emulator.machine.screen = e.machine.screen ∧ _
    rcases e.tick_executes_cases with ⟨op, i, -, -, he⟩ | ⟨-, state, he⟩
    · rw [he, drawFlag_after, Bool.or_eq_false_iff] at hf'
      rw [he, screen_after hf'.1]
      exact ⟨rfl, .inr hf'.2⟩
    · rw [he] at hf' ⊢
      exact ⟨rfl, .inr hf'⟩
  · by_cases htake : c = .takeDrawFlag
    · subst htake
      rw [copies_takeDrawFlag]
      exact ⟨rfl, Bool.eq_false_or_eq_true e.drawFlag⟩
    · have hl : ¬ Lowers e c := by
        rintro (h | h)
        · exact hc h
        · exact htake h
      obtain ⟨hflag, hscreen⟩ := drawFlag_perform_of_ne htick hl
      exact ⟨hscreen, .inr (hflag.symm.trans hf)⟩

theorem Faithful.perform (h : e.Faithful picture unseen) (c : Command) :
    (e.perform c).emulator.Faithful (e.present picture c)
      (Resets e c ∨ (unseen ∧ ¬ e.Copies c)) := by
  intro hf
  by_cases hcopy : e.Copies c
  · exact .inl (if_pos hcopy)
  rw [present, if_neg hcopy]
  by_cases hc : c = .reset
  · subst hc
    exact .inr ⟨e.screen_reset, .inl rfl⟩
  · obtain ⟨hscreen, hdown⟩ := screen_perform hc hf
    rw [hscreen]
    exact (h (hdown.resolve_left hcopy)).imp_right fun ⟨hb, hu⟩ => ⟨hb, .inr ⟨hu, hcopy⟩⟩

theorem Faithful.run (h : e.Faithful picture unseen) (cs : List Command) :
    (e.run cs).emulator.Faithful (e.shown picture cs)
      (e.Since Resets Copies cs ∨ (unseen ∧ e.Never Copies cs)) := by
  induction cs generalizing e picture unseen with
  | nil => exact h.imp fun hu => .inr ⟨hu, trivial⟩
  | cons c cs ih => exact (ih (h.perform c)).imp since_or_never_cons.mpr

/-- A presenter starts with a blank picture and copies the screen whenever it takes the draw flag
and finds it up. Each time it has taken the flag, its picture is what is on the screen, unless the
flag was down and the machine has been reset since the presenter last copied: then the screen is
blank. -/
theorem presented_picture (random : RandomSource) (cs : List Command) :
    let e := ((fresh random).run cs).emulator
    let f := ((fresh random).run (cs ++ [.takeDrawFlag])).emulator
    let picture := (fresh random).shown .blank (cs ++ [.takeDrawFlag])
    picture = f.machine.screen ∨
      (e.drawFlag = false ∧ f.machine.screen = .blank ∧
        (fresh random).Since Resets Copies cs) := by
  intro e f picture
  have hfresh : (fresh random).Faithful .blank False := fun _ => .inl rfl
  have he := hfresh.run cs
  have hf : f = e.takeDrawFlag.emulator := by
    simp only [f, run_append]
    rfl
  have hpicture : picture = e.present ((fresh random).shown .blank cs) .takeDrawFlag :=
    shown_append (fresh random) .blank cs [.takeDrawFlag]
  rw [hpicture, hf]
  by_cases hup : e.drawFlag = true
  · exact .inl (if_pos (copies_takeDrawFlag.mpr hup))
  · rw [present, if_neg (mt copies_takeDrawFlag.mp hup)]
    have hdown := Bool.eq_false_iff.mpr hup
    exact (he hdown).imp_right fun ⟨hb, hu⟩ => ⟨hdown, hb, hu.resolve_right And.left⟩

/-- A sprite is painted and shown, and the machine is reset: the flag stays down, and the presenter
still shows the sprite when the screen is blank. -/
theorem stale_after_reset :
    let cs : List Command :=
      [.load [0xA2, 0x00, 0xD0, 0x01], .tick, .tick, .takeDrawFlag, .reset, .takeDrawFlag]
    (ofSeed 7).shown .blank cs ≠ ((ofSeed 7).run cs).emulator.machine.screen := by
  intro cs h
  have hscreen : ((ofSeed 7).run cs).emulator.machine.screen = .blank := screen_reset _
  have hpixel : ((ofSeed 7).shown .blank cs).get 0 0 = true := by decide +kernel
  rw [h, hscreen] at hpixel
  exact absurd hpixel (by decide)

end Emulator

end Chip8
