import Chip8.Proofs.History
import Chip8.Proofs.KeyWait

/-!
# Inputs that commute

Ticks, timer ticks and key events reach the emulator from three sides. An instruction reads or
writes the timers or the keypad only if it is one of the few that exist for it, and whether it
fails depends on neither. So the order of two inputs matters only where such an instruction is
next, or where a key press ends a wait.

* `tick_mapDevices`: a tick does the same whatever the timers and the keypad hold.
* `commutes_tickTimers_setKey`, `commutes_tickTimers_tick`, `commutes_setKey_tick`: the three
  pairs of inputs.
* `run_perm`: ticks that leave the timers alone and timer ticks, in any order.
* `independent_inputs_commute`: all of these.
-/

namespace Chip8

/-- The opcode is of the form FX07, FX15 or FX18. -/
def Opcode.UsesTimers (op : Word) : Prop :=
  op &&& 0xF0FF = 0xF007 ∨ op &&& 0xF0FF = 0xF015 ∨ op &&& 0xF0FF = 0xF018

/-- The opcode is of the form EX9E, EXA1 or FX0A. -/
def Opcode.UsesKeypad (op : Word) : Prop :=
  op &&& 0xF0FF = 0xE09E ∨ op &&& 0xF0FF = 0xE0A1 ∨ op &&& 0xF0FF = 0xF00A

instance : DecidablePred Opcode.UsesTimers := fun op =>
  inferInstanceAs (Decidable (op &&& 0xF0FF = 0xF007 ∨ op &&& 0xF0FF = 0xF015 ∨
    op &&& 0xF0FF = 0xF018))

instance : DecidablePred Opcode.UsesKeypad := fun op =>
  inferInstanceAs (Decidable (op &&& 0xF0FF = 0xE09E ∨ op &&& 0xF0FF = 0xE0A1 ∨
    op &&& 0xF0FF = 0xF00A))

namespace Instruction

/-- Whether the instruction reads or writes a timer. -/
def usesTimers : Instruction → Bool
  | .readDelay _ | .setDelay _ | .setSound _ => true
  | _ => false

/-- Whether the instruction reads the keypad. -/
def readsKeypad : Instruction → Bool
  | .skipPressed _ | .skipReleased _ => true
  | _ => false

variable {op : Word} {i : Instruction}

theorem opcode_usesTimers (h : decode op = .ok i) (hi : i.usesTimers = true) :
    Opcode.UsesTimers op := by
  cases i with
  | readDelay x => exact .inl (decode_eq_readDelay_iff.mp h).1
  | setDelay x => exact .inr (.inl (decode_eq_setDelay_iff.mp h).1)
  | setSound x => exact .inr (.inr (decode_eq_setSound_iff.mp h).1)
  | _ => cases hi

theorem opcode_usesKeypad (h : decode op = .ok i) (hi : i.readsKeypad = true) :
    Opcode.UsesKeypad op := by
  cases i with
  | skipPressed x => exact .inl (decode_eq_skipPressed_iff.mp h).1
  | skipReleased x => exact .inr (.inl (decode_eq_skipReleased_iff.mp h).1)
  | _ => cases hi

/-- The opcodes that use the timers are never refused. -/
theorem decode_of_usesTimers (h : Opcode.UsesTimers op) :
    ∃ i, decode op = .ok i ∧ ∀ m : Machine, m.refusal i = none := by
  rcases h with h | h | h
  · exact ⟨_, decode_eq_readDelay_iff.mpr ⟨h, rfl⟩, fun _ => rfl⟩
  · exact ⟨_, decode_eq_setDelay_iff.mpr ⟨h, rfl⟩, fun _ => rfl⟩
  · exact ⟨_, decode_eq_setSound_iff.mpr ⟨h, rfl⟩, fun _ => rfl⟩

end Instruction

/-! ## Changes from outside -/

namespace Machine

variable {f : Timers → Timers} {g : Keypad → Keypad} {i : Instruction}

/-- Changes the timers and the keypad. -/
def mapDevices (f : Timers → Timers) (g : Keypad → Keypad) (m : Machine) : Machine :=
  { m with timers := f m.timers, keypad := g m.keypad }

theorem refusal_mapDevices (m : Machine) : (m.mapDevices f g).refusal i = m.refusal i := by
  cases i <;> rfl

theorem skip_mapDevices (m : Machine) (c : Bool) :
    (m.mapDevices f g).skip c = (m.skip c).mapDevices f g := by
  cases c <;> rfl

/-- An instruction has the same effect after changes of the devices that it does not use. -/
theorem effect_mapDevices (hf : i.usesTimers = true → f = id)
    (hg : i.readsKeypad = true → g = id) (m : Machine) :
    (m.mapDevices f g).effect i = (m.effect i).mapDevices f g := by
  cases i with
  | readDelay | setDelay | setSound =>
    obtain rfl := hf rfl
    rfl
  | skipPressed | skipReleased =>
    obtain rfl := hg rfl
    exact m.skip_mapDevices _
  | skipEqByte | skipNeByte | skipEq | skipNe => exact m.skip_mapDevices _
  | _ => rfl

end Machine

namespace Emulator

variable {e : Emulator} {f : Timers → Timers} {g : Keypad → Keypad}

/-- Changes the timers and the keypad. -/
def mapDevices (f : Timers → Timers) (g : Keypad → Keypad) (e : Emulator) : Emulator :=
  { e with machine := e.machine.mapDevices f g }

theorem after_mapDevices {i : Instruction} (hf : i.usesTimers = true → f = id)
    (hg : i.readsKeypad = true → g = id) :
    (e.mapDevices f g).after i = (e.after i).mapDevices f g := by
  have hm : (e.mapDevices f g).advanced.effect i = (e.advanced.effect i).mapDevices f g :=
    Machine.effect_mapDevices hf hg e.advanced
  simp only [after, hm]
  cases i.flow <;> rfl

/-- A tick does the same after a change of the timers and the keypad, unless the instruction that
it finds uses what was changed. -/
theorem tick_mapDevices
    (h : e.state = .running → ∀ i, e.peek = .ok i →
      (i.usesTimers = true → f = id) ∧ (i.readsKeypad = true → g = id)) :
    (e.mapDevices f g).tick =
      ⟨e.tick.result, e.tick.emulator.mapDevices f g, e.tick.log⟩ := by
  obtain ⟨hresult, hemulator, hlog⟩ := tick_lockstep e (e.mapDevices f g)
    (R := fun a b => b = a.mapDevices f g) rfl rfl rfl
    (fun _ => e.advanced.refusal_mapDevices) rfl rfl fun op i hx hd => by
      obtain ⟨hf, hg⟩ := h hx.running i (peek_of_holdsWord hx.fetched hd)
      exact after_mapDevices hf hg
  rw [← hresult, ← hemulator, ← hlog]

/-! ## Pairs of inputs -/

/-- The emulator runs, and an opcode of some kind is next. -/
def Faces (e : Emulator) (kind : Word → Prop) : Prop :=
  e.state = .running ∧ ∃ op, e.machine.memory.HoldsWord e.pc op ∧ kind op

theorem Faces.of_peek {kind : Word → Prop} {i : Instruction} (hs : e.state = .running)
    (hp : e.peek = .ok i) (hi : ∀ op, Instruction.decode op = .ok i → kind op) :
    e.Faces kind := by
  obtain ⟨op, hw, hd⟩ := peek_eq_ok_iff.mp hp
  exact ⟨hs, op, Memory.readWord_eq_ok_iff.mp hw, hi op hd⟩

/-- Both orders of two commands give the same answer to each and lead to the same emulator. -/
structure Commutes (e : Emulator) (c d : Command) : Prop where
  result_left : ((e.perform d).emulator.perform c).result = (e.perform c).result
  result_right : ((e.perform c).emulator.perform d).result = (e.perform d).result
  emulator : ((e.perform c).emulator.perform d).emulator =
    ((e.perform d).emulator.perform c).emulator

theorem commutes_tickTimers_setKey (e : Emulator) (key : Byte) (down : Bool) :
    e.Commutes .tickTimers (.setKey key down) := by
  have h : e.tickTimers.setKey key down =
      ⟨(e.setKey key down).result, (e.setKey key down).emulator.tickTimers,
        (e.setKey key down).log⟩ := by
    rcases Nat.lt_or_ge key.toNat keyCount with hk | hk
    · rw [setKey_of_lt hk, setKey_of_lt hk]
      cases down <;> cases hs : e.state <;> simp only [tickTimers, hs] <;> rfl
    · rw [setKey_of_le hk, setKey_of_le hk]
  constructor
  · rfl
  · exact (congrArg (Answer.ofResult ·.result) h :)
  · exact (congrArg Response.emulator h :)

theorem commutes_tickTimers_tick (h : ¬ e.Faces Opcode.UsesTimers) :
    e.Commutes .tickTimers .tick := by
  have ht : e.tickTimers.tick =
      ⟨e.tick.result, e.tick.emulator.tickTimers, e.tick.log⟩ :=
    tick_mapDevices (f := Timers.tick) (g := id)
      fun hs _ hp =>
        ⟨fun hi => absurd (Faces.of_peek hs hp fun _ hd => Instruction.opcode_usesTimers hd hi) h,
          fun _ => rfl⟩
  constructor
  · rfl
  · exact (congrArg (Answer.ofResult ·.result) ht :)
  · exact (congrArg Response.emulator ht :)

/-- A key event and a tick commute unless the tick looks at the keypad or starts a wait, or the
event ends one. -/
theorem commutes_setKey_tick {key : Byte} {down : Bool} (h : ¬ e.Faces Opcode.UsesKeypad)
    (hw : ¬ ((∃ r, e.state = .awaitingKey r) ∧ down = true ∧ key.toNat ≤ 15)) :
    e.Commutes (.setKey key down) .tick := by
  rcases Nat.lt_or_ge key.toNat keyCount with hk | hk
  · have hn : down = true → ∀ r, e.state ≠ .awaitingKey r :=
      fun hd r hr => hw ⟨⟨r, hr⟩, hd, Nat.le_of_lt_succ hk⟩
    have hn' : down = true → ∀ r, e.tick.emulator.state ≠ .awaitingKey r :=
      fun hd => not_awaiting_perform (hn hd) (c := .tick)
        fun _ op hx ho => h ⟨hx.running, op, hx.fetched, .inr (.inr ho)⟩
    have hset := setKey_of_not_awaiting hk hn
    have hset' := setKey_of_not_awaiting hk hn'
    have ht := tick_mapDevices (e := e) (f := id) (g := fun k => ⟨k.keys.set key.toNat down⟩)
      fun hs _ hp => ⟨fun _ => rfl,
        fun hi => absurd (Faces.of_peek hs hp fun _ hd => Instruction.opcode_usesKeypad hd hi) h⟩
    constructor <;> simp only [perform, Response.map, hset, hset']
    · exact congrArg (Answer.ofResult ·.result) ht
    · exact congrArg Response.emulator ht
  · constructor <;> simp only [perform, Response.map, setKey_of_le hk]

/-! ## Interleavings -/

theorem not_faces_usesTimers_iff :
    ¬ e.Faces Opcode.UsesTimers ↔ ∀ op, e.Executes op → ¬ Opcode.UsesTimers op := by
  constructor
  · exact fun h op hx hop => h ⟨hx.running, op, hx.fetched, hop⟩
  · rintro h ⟨hs, op, hw, hop⟩
    obtain ⟨i, hd, hr⟩ := Instruction.decode_of_usesTimers hop
    exact h op (Executes.of_accepted hs hw hd (hr _)).1 hop

variable {cs ds : List Command}

theorem avoids_cons_tick : e.Avoids Opcode.UsesTimers (.tick :: cs) ↔
    ¬ e.Faces Opcode.UsesTimers ∧ (e.perform .tick).emulator.Avoids Opcode.UsesTimers cs := by
  rw [not_faces_usesTimers_iff, Avoids, imp_iff_right rfl]

theorem avoids_cons_of_ne {c : Command} (hc : c ≠ .tick) {kind : Word → Prop} :
    e.Avoids kind (c :: cs) ↔ (e.perform c).emulator.Avoids kind cs :=
  and_iff_right fun h => absurd h hc

/-- Whether a tick is to execute an instruction that uses the timers does not depend on them. -/
theorem avoids_tickTimers_tick :
    e.Avoids Opcode.UsesTimers (.tickTimers :: .tick :: cs) ↔
      e.Avoids Opcode.UsesTimers (.tick :: .tickTimers :: cs) := by
  have hfaces : (e.perform .tickTimers).emulator.Faces Opcode.UsesTimers ↔
      e.Faces Opcode.UsesTimers := Iff.rfl
  have hne : Command.tickTimers ≠ .tick := nofun
  rw [avoids_cons_of_ne hne, avoids_cons_tick, avoids_cons_tick, avoids_cons_of_ne hne, hfaces]
  refine and_congr_right fun h => ?_
  rw [(commutes_tickTimers_tick h).emulator]

theorem run_tickTimers_tick (h : e.Avoids Opcode.UsesTimers (.tick :: .tickTimers :: cs)) :
    (e.run (.tickTimers :: .tick :: cs)).emulator =
      (e.run (.tick :: .tickTimers :: cs)).emulator := by
  simp only [run]
  rw [(commutes_tickTimers_tick (avoids_cons_tick.mp h).1).emulator]

/-- Ticks that leave the timers alone and timer ticks may change places. -/
theorem run_perm (hp : cs.Perm ds) (hcs : ∀ c ∈ cs, c = .tick ∨ c = .tickTimers)
    (h : e.Avoids Opcode.UsesTimers cs) :
    e.Avoids Opcode.UsesTimers ds ∧ (e.run ds).emulator = (e.run cs).emulator := by
  induction hp generalizing e with
  | nil => exact ⟨h, rfl⟩
  | cons c _ ih =>
    obtain ⟨hds, he⟩ := ih (List.forall_mem_cons.mp hcs).2 h.2
    exact ⟨⟨h.1, hds⟩, he⟩
  | swap c d cs =>
    obtain ⟨hd, hcs⟩ := List.forall_mem_cons.mp hcs
    obtain ⟨hc, -⟩ := List.forall_mem_cons.mp hcs
    -- two ticks of one clock are the same command twice; only unlike ones need an argument
    rcases hd with rfl | rfl <;> rcases hc with rfl | rfl
    · exact ⟨h, rfl⟩
    · exact ⟨avoids_tickTimers_tick.mpr h, run_tickTimers_tick h⟩
    · have h' := avoids_tickTimers_tick.mp h
      exact ⟨h', (run_tickTimers_tick h').symm⟩
    · exact ⟨h, rfl⟩
  | trans hp _ ih₁ ih₂ =>
    obtain ⟨hds, he⟩ := ih₁ hcs h
    obtain ⟨hds', he'⟩ := ih₂ (fun c hc => hcs c (hp.mem_iff.mpr hc)) hds
    exact ⟨hds', he'.trans he⟩

/-- A timer tick and a key event commute. A timer tick and a tick commute unless FX07, FX15 or
FX18 is next, and a key event and a tick commute unless EX9E, EXA1 or FX0A is next or the event
is a press that ends a wait. So ticks that execute none of FX07, FX15 and FX18 and timer ticks
lead to the same emulator in every order. -/
theorem independent_inputs_commute (e : Emulator) :
    (∀ key down, e.Commutes .tickTimers (.setKey key down)) ∧
    (¬ e.Faces Opcode.UsesTimers → e.Commutes .tickTimers .tick) ∧
    (∀ key down, ¬ e.Faces Opcode.UsesKeypad →
      ¬ ((∃ r, e.state = .awaitingKey r) ∧ down = true ∧ key.toNat ≤ 15) →
      e.Commutes (.setKey key down) .tick) ∧
    ∀ (n m : Nat) (cs ds : List Command),
      cs.Perm (List.replicate n .tick ++ List.replicate m .tickTimers) →
      ds.Perm (List.replicate n .tick ++ List.replicate m .tickTimers) →
      e.Avoids Opcode.UsesTimers cs →
      e.Avoids Opcode.UsesTimers ds ∧ (e.run ds).emulator = (e.run cs).emulator := by
  refine ⟨commutes_tickTimers_setKey e, commutes_tickTimers_tick,
    fun key down => commutes_setKey_tick, fun n m cs ds hcs hds h => ?_⟩
  refine run_perm (hcs.trans hds.symm) (fun c hc => ?_) h
  rcases List.mem_append.mp (hcs.mem_iff.mp hc) with hc | hc
  · exact .inl (List.eq_of_mem_replicate hc)
  · exact .inr (List.eq_of_mem_replicate hc)

/-- A program has set the delay timer and goes on to count in register 0: its ticks commute with
timer ticks and key events. -/
theorem independent_inputs_commute_counting :
    let e := ((ofSeed 7).run
      [.load [0x60, 0x05, 0xF0, 0x15, 0x70, 0x01, 0x12, 0x04], .tick, .tick]).emulator
    let cs : List Command := [.tick, .tickTimers, .tick, .tick, .tickTimers]
    let ds : List Command := [.tickTimers, .tickTimers, .tick, .tick, .tick]
    e.Commutes .tickTimers .tick ∧ e.Commutes (.setKey 3 true) .tick ∧
      (e.run ds).emulator = (e.run cs).emulator := by
  intro e cs ds
  obtain ⟨-, htimers, hkey, hrun⟩ := independent_inputs_commute e
  have hop : e.executes? .tick = some 0x7001 := by decide +kernel
  have hx : e.Executes 0x7001 := (executes?_eq_some_iff.mp hop).2
  have hnext : ∀ kind, e.Faces kind → kind 0x7001 := by
    rintro kind ⟨-, op, hw, hk⟩
    cases (Memory.readWord_eq_ok_iff.mpr hx.fetched).symm.trans (Memory.readWord_eq_ok_iff.mpr hw)
    exact hk
  have hexecuted : e.executed cs = [0x7001, 0x1204, 0x7001] := by decide +kernel
  have hcs : e.Avoids Opcode.UsesTimers cs := by
    rw [avoids_iff, hexecuted]
    simp [Opcode.UsesTimers]
  refine ⟨htimers fun h => absurd (hnext _ h) (by decide),
    hkey 3 true (fun h => absurd (hnext _ h) (by decide)) ?_,
    (hrun 3 2 cs ds (by decide) (by decide) hcs).2⟩
  rintro ⟨⟨r, hr⟩, -⟩
  exact absurd (hx.running.symm.trans hr) nofun

end Emulator

end Chip8
