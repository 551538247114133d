import Chip8.Proofs.Step
import Mathlib.Data.List.Basic

/-!
# The run state in the log

The log tells the run state. Four kinds of record stand for the transitions between run states, a
load stands for the start of an idle emulator and for nothing otherwise, and all other records
leave the run state as it was (`RunState.follow`). The same can be read off the texts
(`RunState.read`), since records of different kinds begin with different letters.

* `read_text`: the texts tell what the records tell.
* `foldl_follow_log_perform`, `foldl_follow_log_run`: the log of a command and the log of a run.
* `filter_log_tick_of_error`: what is logged about a failure.
* `log_tells_state`: the run state after a run, and the errors in the log.
-/

namespace Chip8

/-! ## Reading the log -/

/-- The run state after a record, from the run state before it. -/
def RunState.follow (s : RunState) : Record → RunState
  | .loaded _ => if s = .idle then .running else s
  | .awaitingKey r => .awaitingKey r
  | .keyPressed _ => .running
  | .halting .. => .halted
  | .machineReset => .idle
  | .fetched .. | .keyIgnored _ | .behind _ => s

/-- What stands in a line between its first and its last words, if they are the ones given. -/
def between? (first last line : String) : Option (List Char) :=
  (first.toList.isPrefixOf? line.toList).bind last.toList.isSuffixOf?

/-- The run state after a line of the log, from the run state before it. -/
def RunState.read (s : RunState) (line : String) : RunState :=
  if (between? "loaded " " ROM" line).isSome then
    if s = .idle then .running else s
  else if let some digits := between? "waiting for key press into V" "" line then
    .awaitingKey (BitVec.ofNat 8 (Numeral.hexValue digits))
  else if (between? "key " " pressed, resuming" line).isSome then .running
  else if (between? "halting at pc " "" line).isSome then .halted
  else if (between? "machine reset" "" line).isSome then .idle
  else s

theorem between?_append (first middle last : String) :
    between? first last (first ++ middle ++ last) = some middle.toList := by
  have h : first.toList.isPrefixOf? (first ++ middle ++ last).toList =
      some (middle.toList ++ last.toList) := by
    rw [List.isPrefixOf?_eq_some_iff_append_eq]
    simp only [String.toList_append, List.append_assoc]
  rw [between?, h, Option.bind_some, List.isSuffixOf?_eq_some_iff_append_eq]

theorem between?_append_empty (first rest : String) :
    between? first "" (first ++ rest) = some rest.toList := by
  have h := between?_append first rest ""
  rwa [String.append_empty] at h

theorem head?_toList_append {a b : String} {c : Char} (h : a.toList.head? = some c) :
    (a ++ b).toList.head? = some c := by
  rw [String.toList_append, List.head?_append, h, Option.some_or]

namespace Record

/-- The letter that the text of a record begins with. -/
def initial : Record → Char
  | .loaded _ => 'l'
  | .fetched .. => 'p'
  | .halting .. => 'h'
  | .awaitingKey _ => 'w'
  | .keyPressed _ => 'k'
  | .keyIgnored _ => 'i'
  | .machineReset => 'm'
  | .behind _ => 'c'

theorem head?_text (r : Record) : r.text.toList.head? = some r.initial := by
  cases r with
  | machineReset => rfl
  | awaitingKey | keyIgnored => exact head?_toList_append rfl
  | loaded | keyPressed | behind => exact head?_toList_append (head?_toList_append rfl)
  | halting => exact head?_toList_append (head?_toList_append (head?_toList_append rfl))
  | fetched =>
    exact head?_toList_append (head?_toList_append (head?_toList_append
      (head?_toList_append (head?_toList_append rfl))))

/-- The first letter tells a record from the lines that begin with another one. -/
theorem between?_text_eq_none (r : Record) {first last : String} {c : Char}
    (hfirst : first.toList.head? = some c) (h : (r.initial == c) = false) :
    between? first last r.text = none := by
  rw [between?, Option.bind_eq_none_iff]
  intro rest hrest
  rw [List.isPrefixOf?_eq_some_iff_append_eq] at hrest
  have hhead := r.head?_text
  rw [← hrest, List.head?_append, hfirst, Option.some_or, Option.some.injEq] at hhead
  exact absurd hhead.symm (beq_eq_false_iff_ne.mp h)

theorem between?_text_loaded (size : Nat) :
    between? "loaded " " ROM" (text (.loaded size)) =
      some (Numeral.decimal size ++ " byte").toList := by
  have h := between?_append "loaded " (Numeral.decimal size ++ " byte") " ROM"
  rw [String.append_assoc, String.append_assoc, ← String.append_assoc] at h
  exact h

theorem between?_text_awaitingKey (r : Byte) :
    between? "waiting for key press into V" "" (text (.awaitingKey r)) =
      some (Numeral.hexDigits 1 r.toNat) := by
  have h := between?_append_empty ("waiting for key press into " ++ "V") (Numeral.hex 1 r.toNat)
  rw [String.append_assoc, Numeral.hex, String.toList_ofList] at h
  exact h

theorem between?_text_keyPressed (key : Byte) :
    between? "key " " pressed, resuming" (text (.keyPressed key)) =
      some (Numeral.hex 1 key.toNat).toList :=
  between?_append "key " (Numeral.hex 1 key.toNat) " pressed, resuming"

theorem between?_text_halting (pc : Word) (f : Fault) :
    between? "halting at pc " "" (text (.halting pc f)) =
      some (Numeral.prefixed 3 pc.toNat ++ (": " ++ f.message)).toList := by
  have h := between?_append_empty "halting at pc "
    (Numeral.prefixed 3 pc.toNat ++ (": " ++ f.message))
  rw [← String.append_assoc, ← String.append_assoc] at h
  exact h

end Record

/-- The text of a record tells of the run state what the record tells. -/
theorem RunState.read_text (s : RunState) (r : Record) : s.read r.text = s.follow r := by
  -- which rules do not apply, by the first letter of the text
  have hload : (r.initial == 'l') = false → between? "loaded " " ROM" r.text = none :=
    r.between?_text_eq_none rfl
  have hwait : (r.initial == 'w') = false →
      between? "waiting for key press into V" "" r.text = none :=
    r.between?_text_eq_none rfl
  have hkey : (r.initial == 'k') = false →
      between? "key " " pressed, resuming" r.text = none :=
    r.between?_text_eq_none rfl
  have hhalt : (r.initial == 'h') = false → between? "halting at pc " "" r.text = none :=
    r.between?_text_eq_none rfl
  have hreset : (r.initial == 'm') = false → between? "machine reset" "" r.text = none :=
    r.between?_text_eq_none rfl
  cases r with
  | loaded size => simp [read, follow, Record.between?_text_loaded]
  | awaitingKey r =>
    simp [read, follow, hload rfl, Record.between?_text_awaitingKey, Numeral.hexValue_hexDigits]
  | keyPressed key => simp [read, follow, hload rfl, hwait rfl, Record.between?_text_keyPressed]
  | halting pc f =>
    simp [read, follow, hload rfl, hwait rfl, hkey rfl, Record.between?_text_halting]
  | machineReset => rfl
  | fetched | keyIgnored | behind =>
    simp [read, follow, hload rfl, hwait rfl, hkey rfl, hhalt rfl, hreset rfl]

theorem foldl_read_map_text (s : RunState) (log : List Record) :
    (log.map Record.text).foldl RunState.read s = log.foldl RunState.follow s := by
  rw [List.foldl_map]
  simp only [RunState.read_text]

example : ["loaded 2 byte ROM", "waiting for key press into VB"].foldl RunState.read .idle =
    .awaitingKey 0xB := by decide

namespace Emulator

variable {e : Emulator}

/-! ## The log of a command -/

theorem foldl_follow_log_load (e : Emulator) (rom : List Byte) :
    (e.load rom).log.foldl RunState.follow e.state = (e.load rom).emulator.state := by
  rcases Nat.lt_or_ge programCapacity rom.length with h | h
  · rw [load_of_lt h]
    rfl
  · rw [load_of_le h]
    rfl

theorem foldl_follow_log_tick (e : Emulator) :
    e.tick.log.foldl RunState.follow e.state = e.tick.emulator.state := by
  by_cases hs : e.state = .running
  · have ho := tickOutcome_tick hs
    generalize e.tick = t at ho ⊢
    cases ho with
    | unfetched | refused => rfl
    | @done op i =>
      -- an instruction that is carried out is logged with the wait that it starts, if any
      cases i <;> rfl
  · obtain ⟨he, hlog⟩ := tick_of_not_running hs
    rw [he, hlog, List.foldl_nil]

theorem foldl_follow_log_setKey (e : Emulator) (key : Byte) (down : Bool) :
    (e.setKey key down).log.foldl RunState.follow e.state =
      (e.setKey key down).emulator.state := by
  have ho := e.keyOutcome_setKey key down
  generalize e.setKey key down = t at ho ⊢
  cases ho with
  | refused | recorded | resumed => rfl

/-- The records of a command tell what it does to the run state. -/
theorem foldl_follow_log_perform (e : Emulator) (c : Command) :
    (e.perform c).log.foldl RunState.follow e.state = (e.perform c).emulator.state := by
  cases c with
  | load rom => exact e.foldl_follow_log_load rom
  | tick => exact e.foldl_follow_log_tick
  | setKey key down => exact e.foldl_follow_log_setKey key down
  | reset | tickTimers | takeDrawFlag | peek | pixel => rfl

/-- A cycle that fails is reported by one error, with the address of the instruction. -/
theorem filter_log_tick_of_error {f : Failure} (hs : e.state = .running)
    (h : e.tick.result = .error f) :
    ∃ g, f = .fault g ∧ e.tick.log.filter (·.level = .error) = [.halting e.pc g] := by
  have ho := tickOutcome_tick hs
  generalize e.tick = t at ho h ⊢
  cases ho with
  | unfetched | refused =>
    cases h
    exact ⟨_, rfl, rfl⟩
  | done => cases h

/-! ## The log of a run -/

/-- The log of a run tells the run state after it from the run state before it. -/
theorem foldl_follow_log_run (e : Emulator) (cs : List Command) :
    (e.run cs).log.foldl RunState.follow e.state = (e.run cs).emulator.state := by
  induction cs generalizing e with
  | nil => rfl
  | cons c cs ih => rw [run, List.foldl_append, foldl_follow_log_perform, ih]

/-- Whoever follows the log of a run from power-on, by the records or by their texts, knows the run
state. A tick of a running emulator that fails logs one error, which has the fault and the address
of the instruction that failed; and a tick of a halted emulator logs nothing. -/
theorem log_tells_state :
    (∀ (random : RandomSource) (cs : List Command),
      let r := (fresh random).run cs
      r.log.foldl RunState.follow .idle = r.emulator.state ∧
      (r.log.map Record.text).foldl RunState.read .idle = r.emulator.state) ∧
    (∀ (e : Emulator) (f : Failure), e.state = .running → e.tick.result = .error f →
      ∃ g, f = .fault g ∧ e.tick.log.filter (·.level = .error) = [.halting e.pc g]) ∧
    ∀ e : Emulator, e.state = .halted → e.tick.log = [] := by
  refine ⟨fun random cs => ?_, fun e f => filter_log_tick_of_error, fun e hs => ?_⟩
  · have h := foldl_follow_log_run (fresh random) cs
    exact ⟨h, (foldl_read_map_text _ _).trans h⟩
  · rw [tick_of_halted hs]

/-- A return without a call, which fails when the program counter has moved past it. -/
theorem log_tells_state_underflow :
    let rom : List Byte := [0x00, 0xEE]
    let e := ((ofSeed 7).load rom).emulator
    let log := ((ofSeed 7).run [.load rom, .tick, .tick]).log
    (log.map Record.text).foldl RunState.read .idle = .halted ∧
      e.state = .running ∧ e.tick.result = .error (.fault .stackUnderflow) ∧
      e.tick.log.filter (·.level = .error) = [.halting 0x200 .stackUnderflow] ∧
      e.tick.emulator.state = .halted ∧ e.tick.emulator.tick.log = [] := by
  intro rom e log
  obtain ⟨hrun, hfail, hhalted⟩ := log_tells_state
  obtain ⟨hs, hw⟩ := running_load_fresh (.ofSeed 7) 0x00 0xEE [] (by decide)
  have hr : e.advanced.refusal .ret = some (.fault .stackUnderflow) := rfl
  have ht : e.tick = _ := tick_of_refused hs (Memory.readWord_eq_ok_iff.mpr hw)
    (Instruction.decode_eq_ret_iff.mpr rfl) hr
  have hresult : e.tick.result = .error (.fault .stackUnderflow) := by rw [ht]
  have hstate : e.tick.emulator.state = .halted := by rw [ht]
  obtain ⟨g, hg, hlog⟩ := hfail e _ hs hresult
  cases hg
  exact ⟨(hrun _ _).2.trans (by decide +kernel), hs, hresult, hlog, hstate, hhalted _ hstate⟩

end Emulator

end Chip8
