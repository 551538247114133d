import Chip8.Proofs.Step

/-!
# Looking back on a run

What a run has done up to now: whether something was done in it that nothing has undone since
(`Emulator.Since`), what was last written to some place (`Emulator.Latest`), and the opcodes that
its ticks have executed (`Emulator.executed`).

* `flag_run_iff`: what one kind of command raises and another lowers is up after a run if it
  was raised since it was last lowered.
* `exists_latest_or_never`, `cell_run_of_never`, `cell_run_of_latest`: what a place holds after a
  run is known from what was last written to it and from what came since.
* `executes?_eq_some_iff`, `tick_executes_cases`: the opcode that a command executes, and what a
  tick does that executes none.
-/

namespace Chip8.Emulator

variable {e : Emulator} {c : Command} {cs : List Command} {op : Word}

/-- The command is a tick that executes an opcode of some kind. -/
def Executing (kind : Word → Prop) (e : Emulator) (c : Command) : Prop :=
  c = .tick ∧ ∃ op, e.Executes op ∧ kind op

/-! ## Done and not undone -/

/-- No command of a run does something. -/
def Never (e : Emulator) (act : Emulator → Command → Prop) : List Command → Prop
  | [] => True
  | c :: cs => ¬ act e c ∧ (e.perform c).emulator.Never act cs

instance Never.decidable (act : Emulator → Command → Prop) [∀ e c, Decidable (act e c)] :
    (e : Emulator) → (cs : List Command) → Decidable (e.Never act cs)
  | _, [] => inferInstanceAs (Decidable True)
  | e, c :: cs =>
    have := Never.decidable act (e.perform c).emulator cs
    inferInstanceAs (Decidable (¬ act e c ∧ (e.perform c).emulator.Never act cs))

/-- What depends on the command alone is never done if no command of the run does it. -/
theorem never_iff_forall_mem {kind : Command → Prop} :
    e.Never (fun _ c => kind c) cs ↔ ∀ c ∈ cs, ¬ kind c := by
  induction cs generalizing e with
  | nil => exact iff_of_true trivial nofun
  | cons c cs ih => rw [Never, ih, List.forall_mem_cons]

/-- Some command of a run does one thing, and no later command does another. -/
def Since (e : Emulator) (act undo : Emulator → Command → Prop) (cs : List Command) : Prop :=
  ∃ ds c ds', cs = ds ++ c :: ds' ∧ act (e.run ds).emulator c ∧
    ((e.run ds).emulator.perform c).emulator.Never undo ds'

variable {act undo : Emulator → Command → Prop}

theorem not_since_nil : ¬ e.Since act undo [] := by
  rintro ⟨ds, c, ds', h, -⟩
  exact absurd h.symm (List.append_ne_nil_of_right_ne_nil ds (List.cons_ne_nil c ds'))

/-- The first command of a run is the latest to act, or a later one is. -/
theorem since_cons : e.Since act undo (c :: cs) ↔
    (act e c ∧ (e.perform c).emulator.Never undo cs) ∨
      (e.perform c).emulator.Since act undo cs := by
  constructor
  · rintro ⟨ds, d, ds', h, hact, hundo⟩
    cases ds with
    | nil =>
      obtain ⟨rfl, rfl⟩ := List.cons.inj h
      exact .inl ⟨hact, hundo⟩
    | cons d' ds =>
      obtain ⟨rfl, rfl⟩ := List.cons.inj h
      exact .inr ⟨ds, d, ds', rfl, hact, hundo⟩
  · rintro (⟨hact, hundo⟩ | ⟨ds, d, ds', rfl, hact, hundo⟩)
    · exact ⟨[], c, cs, rfl, hact, hundo⟩
    · exact ⟨c :: ds, d, ds', rfl, hact, hundo⟩

/-- With `p` for what was done before the run: it is done and not undone after the run if it is
so after the first command, and the rest of the run keeps it. -/
theorem since_or_never_cons {p : Prop} :
    (e.Since act undo (c :: cs) ∨ (p ∧ e.Never undo (c :: cs))) ↔
      (e.perform c).emulator.Since act undo cs ∨
        ((act e c ∨ (p ∧ ¬ undo e c)) ∧ (e.perform c).emulator.Never undo cs) := by
  rw [since_cons, Never, or_and_right, and_assoc, or_left_comm, or_assoc]

/-- A flag that one kind of command raises and another lowers is up after a run if it was raised
since it was last lowered, or was up at the start and has not been lowered. -/
theorem flag_run_iff (flag : Emulator → Prop)
    (step : ∀ e c, flag (e.perform c).emulator ↔ act e c ∨ (flag e ∧ ¬ undo e c))
    (e : Emulator) (cs : List Command) :
    flag (e.run cs).emulator ↔ e.Since act undo cs ∨ (flag e ∧ e.Never undo cs) := by
  induction cs generalizing e with
  | nil => simp only [run, Never, not_since_nil, false_or, and_true]
  | cons c cs ih =>
    rw [run, ih, step, since_or_never_cons]

/-! ## The latest write -/

section

variable {α β : Type} {writes : Emulator → Command → Option α} {a : α} {rest : List Command}

/-- The latest command of a run that writes something writes `a`, and the commands `rest` come
after it. -/
def Latest (e : Emulator) (writes : Emulator → Command → Option α) (cs : List Command) (a : α)
    (rest : List Command) : Prop :=
  ∃ ds c, cs = ds ++ c :: rest ∧ writes (e.run ds).emulator c = some a ∧
    ((e.run ds).emulator.perform c).emulator.Never (fun f d => (writes f d).isSome) rest

theorem Latest.cons (h : (e.perform c).emulator.Latest writes cs a rest) :
    e.Latest writes (c :: cs) a rest := by
  obtain ⟨ds, d, rfl, hw, hn⟩ := h
  exact ⟨c :: ds, d, rfl, hw, hn⟩

/-- A run has a latest write, or none at all. -/
theorem exists_latest_or_never (e : Emulator) (writes : Emulator → Command → Option α)
    (cs : List Command) :
    (∃ a rest, e.Latest writes cs a rest) ∨ e.Never (fun f d => (writes f d).isSome) cs := by
  induction cs generalizing e with
  | nil => exact .inr trivial
  | cons c cs ih =>
    rcases ih (e.perform c).emulator with ⟨a, rest, h⟩ | hn
    · exact .inl ⟨a, rest, h.cons⟩
    · cases hc : writes e c with
      | some a => exact .inl ⟨a, cs, [], c, rfl, hc, hn⟩
      | none => exact .inr ⟨by simp [hc], hn⟩

variable (cell : Emulator → β) (init : α → β) (step : β → Command → β)

/-- A cell that is not written in a run goes through the steps that the commands make by
themselves. -/
theorem cell_run_of_never
    (keep : ∀ e c, writes e c = none → cell (e.perform c).emulator = step (cell e) c)
    (h : e.Never (fun f d => (writes f d).isSome) cs) :
    cell (e.run cs).emulator = cs.foldl step (cell e) := by
  induction cs generalizing e with
  | nil => rfl
  | cons c cs ih =>
    have hc : writes e c = none := by simpa using h.1
    rw [run, ih h.2, keep e c hc, List.foldl_cons]

/-- From the latest write on, a cell goes through these steps from the value written. -/
theorem cell_run_of_latest
    (write : ∀ e c a, writes e c = some a → cell (e.perform c).emulator = init a)
    (keep : ∀ e c, writes e c = none → cell (e.perform c).emulator = step (cell e) c)
    (h : e.Latest writes cs a rest) :
    cell (e.run cs).emulator = rest.foldl step (init a) := by
  obtain ⟨ds, c, rfl, hw, hn⟩ := h
  simp only [run_append, run]
  rw [cell_run_of_never cell step keep hn, write _ _ _ hw]

end

/-! ## What was executed -/

/-- The opcode that a command executes, if it executes one. -/
def executes? (e : Emulator) : Command → Option Word
  | .tick =>
    if e.state = .running then
      match e.machine.memory.readWord e.pc, e.tick.result with
      | .ok op, .ok () => some op
      | _, _ => none
    else none
  | _ => none

/-- The opcodes that the ticks of a run execute, in order. -/
def executed (e : Emulator) : List Command → List Word
  | [] => []
  | c :: cs => (e.executes? c).toList ++ (e.perform c).emulator.executed cs

theorem executed_append (e : Emulator) (cs ds : List Command) :
    e.executed (cs ++ ds) = e.executed cs ++ (e.run cs).emulator.executed ds := by
  induction cs generalizing e with
  | nil => rfl
  | cons c cs ih => rw [List.cons_append, executed, executed, ih, run, List.append_assoc]

theorem executes?_eq_some_iff : e.executes? c = some op ↔ c = .tick ∧ e.Executes op := by
  constructor
  · intro h
    cases c with
    | tick =>
      simp only [executes?] at h
      split at h
      · next hs =>
        split at h
        · next hw hr =>
          cases h
          exact ⟨rfl, hs, Memory.readWord_eq_ok_iff.mp hw, hr⟩
        · cases h
      · cases h
    | _ => cases h
  · rintro ⟨rfl, h⟩
    simp only [executes?, h.running, Memory.readWord_eq_ok_iff.mpr h.fetched, h.done, ↓reduceIte]

/-- A tick executes an opcode just if it is taken in the running state and succeeds. -/
theorem exists_executes_iff :
    (∃ op, e.Executes op) ↔ e.state = .running ∧ e.tick.result = .ok () := by
  constructor
  · rintro ⟨op, h⟩
    exact ⟨h.running, h.done⟩
  · rintro ⟨hs, hok⟩
    rcases tick_cases hs with ⟨f, -, hf, -⟩ | ⟨i, -, hp, -, -, -⟩
    · exact absurd (hok.symm.trans hf) nofun
    · obtain ⟨op, hw, -⟩ := peek_eq_ok_iff.mp hp
      exact ⟨op, hs, Memory.readWord_eq_ok_iff.mp hw, hok⟩

/-- A run avoids what it does not execute. -/
theorem avoids_iff {kind : Word → Prop} :
    e.Avoids kind cs ↔ ∀ op ∈ e.executed cs, ¬ kind op := by
  induction cs generalizing e with
  | nil => exact iff_of_true trivial nofun
  | cons c cs ih =>
    simp only [Avoids, executed, List.forall_mem_append, Option.mem_toList,
      executes?_eq_some_iff, and_imp, ih]
    exact and_congr_left' ⟨fun h op hc => h hc op, fun h hc op => h op hc⟩

/-- A tick executes one opcode at most. -/
theorem Executes.unique {op' : Word} (h : e.Executes op) (h' : e.Executes op') : op' = op := by
  have hop : e.executes? .tick = some op := executes?_eq_some_iff.mpr ⟨rfl, h⟩
  cases hop.symm.trans (executes?_eq_some_iff.mpr ⟨rfl, h'⟩)
  rfl

theorem Executes.executing_iff (h : e.Executes op) {kind : Word → Prop} :
    Executing kind e .tick ↔ kind op := by
  constructor
  · rintro ⟨-, op', h', hk⟩
    exact h.unique h' ▸ hk
  · exact fun hk => ⟨rfl, op, h, hk⟩

/-- A tick executes an opcode, or changes the run state at most. -/
theorem tick_executes_cases (e : Emulator) :
    (∃ op i, e.Executes op ∧ Instruction.decode op = .ok i ∧ e.tick.emulator = e.after i) ∨
    ((∀ op, ¬ e.Executes op) ∧ ∃ state, e.tick.emulator = { e with state }) := by
  by_cases hs : e.state = .running
  · rcases tick_cases hs with ⟨f, -, hf, he⟩ | ⟨i, -, hp, -, hok, he⟩
    · exact .inr ⟨fun op hx => absurd (hx.done.symm.trans hf) nofun, _, he⟩
    · obtain ⟨op, hw, hd⟩ := peek_eq_ok_iff.mp hp
      exact .inl ⟨op, i, ⟨hs, Memory.readWord_eq_ok_iff.mp hw, hok⟩, hd, he⟩
  · exact .inr ⟨fun op hx => hs hx.running, e.state, (tick_of_not_running hs).1⟩

theorem Executes.exists_after (h : e.Executes op) :
    ∃ i, Instruction.decode op = .ok i ∧ e.tick.emulator = e.after i := by
  rcases e.tick_executes_cases with ⟨op', i, hx, hd, he⟩ | ⟨hn, -⟩
  · obtain rfl := h.unique hx
    exact ⟨i, hd, he⟩
  · exact absurd h (hn op)

end Chip8.Emulator
