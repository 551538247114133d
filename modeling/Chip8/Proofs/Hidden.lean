import Chip8.Proofs.Replay

/-!
# Hidden parts

Three parts of an emulator are hidden from its program and from the commands: the random source,
as long as no byte is drawn from it under a mask; the sound timer, which no instruction reads; and
the draw flag, which is seen only by taking it. Emulators that agree on everything else
(`Emulator.Agree`) take the same course.

* `Agree.tick`, `Agree.perform`: one command given to both.
* `Agree.run`: a run of both.
* `hidden_parts_stay_hidden`: what can be told apart at any point of a run.
-/

namespace Chip8

/-- The opcode is of the form CXNN with a mask NN other than 0. -/
def Opcode.RevealsRandom (op : Word) : Prop := IsRandom op ∧ kk op ≠ 0

/-! ## Instructions -/

namespace Machine

variable {random : RandomSource} {sound : Byte} {i : Instruction}

/-- The machine with another random source and another sound timer. -/
def disguise (random : RandomSource) (sound : Byte) (m : Machine) : Machine :=
  { m with random, timers := { m.timers with sound } }

theorem refusal_disguise (m : Machine) : (m.disguise random sound).refusal i = m.refusal i := by
  cases i <;> rfl

theorem skip_disguise (m : Machine) (c : Bool) :
    (m.disguise random sound).skip c = (m.skip c).disguise random sound := by
  cases c <;> rfl

/-- A byte drawn under the mask 0 is 0, whatever the source. -/
theorem effect_random_zero_disguise (m : Machine) (x : Byte) :
    (m.disguise random sound).effect (.random x 0) =
      (m.effect (.random x 0)).disguise random.draw.2 sound := by
  have hzero : ∀ b : Byte, 0 &&& b = 0 := fun _ => BitVec.zero_and
  simp only [effect, disguise, hzero]

/-- An instruction has the same effect on what is not hidden, unless it draws a byte under a
mask. -/
theorem effect_disguise (h : ∀ x mask, i = .random x mask → mask = 0) (random : RandomSource)
    (sound : Byte) (m : Machine) :
    ∃ random' sound',
      (m.disguise random sound).effect i = (m.effect i).disguise random' sound' := by
  cases i with
  | random x mask =>
    obtain rfl := h x mask rfl
    exact ⟨_, _, m.effect_random_zero_disguise x⟩
  | setSound x => exact ⟨random, m.reg x, rfl⟩
  | skipEqByte | skipNeByte | skipEq | skipNe | skipPressed | skipReleased =>
    exact ⟨random, sound, m.skip_disguise _⟩
  | _ => exact ⟨random, sound, rfl⟩

end Machine

namespace Emulator

/-- The emulator with another random source, another sound timer and another draw flag. -/
def disguise (random : RandomSource) (sound : Byte) (drawFlag : Bool) (e : Emulator) : Emulator :=
  { e with machine := e.machine.disguise random sound, drawFlag }

/-- The emulators agree on all but their random sources, sound timers and draw flags. -/
def Agree (e e' : Emulator) : Prop :=
  ∃ random sound drawFlag, e' = e.disguise random sound drawFlag

variable {e e' : Emulator} {c : Command} {cs : List Command}

/-! ## Commands -/

theorem Agree.peek (h : e.Agree e') : e'.peek = e.peek := by
  obtain ⟨random, sound, drawFlag, rfl⟩ := h
  rfl

theorem Agree.after {i : Instruction} (hi : ∀ x mask, i = .random x mask → mask = 0)
    (h : e.Agree e') : (e.after i).Agree (e'.after i) := by
  obtain ⟨random, sound, drawFlag, rfl⟩ := h
  obtain ⟨random', sound', hm⟩ := Machine.effect_disguise hi random sound e.advanced
  have hm' : (e.disguise random sound drawFlag).advanced.effect i =
      (e.advanced.effect i).disguise random' sound' := hm
  simp only [Emulator.after, hm']
  cases i.flow <;> exact ⟨random', sound', _, rfl⟩

/-- The responses have the same result and the same log, and lead to emulators that agree. -/
structure Response.Agree {α : Type} (r r' : Response α) : Prop where
  result : r'.result = r.result
  emulator : r.emulator.Agree r'.emulator
  log : r'.log = r.log

theorem Response.Agree.map {α β : Type} {r r' : Response α} (h : r.Agree r') (f : α → β) :
    (r.map f).Agree (r'.map f) :=
  ⟨congrArg f h.result, h.emulator, h.log⟩

theorem Agree.load (h : e.Agree e') (rom : List Byte) : (e.load rom).Agree (e'.load rom) := by
  obtain ⟨random, sound, drawFlag, rfl⟩ := h
  rcases Nat.lt_or_ge programCapacity rom.length with hl | hl
  · rw [load_of_lt hl, load_of_lt hl]
    exact ⟨rfl, ⟨random, sound, drawFlag, rfl⟩, rfl⟩
  · rw [load_of_le hl, load_of_le hl]
    exact ⟨rfl, ⟨random, sound, drawFlag, rfl⟩, rfl⟩

theorem Agree.setKey (h : e.Agree e') (key : Byte) (down : Bool) :
    (e.setKey key down).Agree (e'.setKey key down) := by
  obtain ⟨random, sound, drawFlag, rfl⟩ := h
  have ho := e.keyOutcome_setKey key down
  generalize e.setKey key down = t at ho ⊢
  cases ho with
  | refused hk =>
    rw [setKey_of_le hk]
    exact ⟨rfl, ⟨random, sound, drawFlag, rfl⟩, rfl⟩
  | recorded hk hs =>
    have hs' : down = true → ∀ r, (e.disguise random sound drawFlag).state ≠ .awaitingKey r := hs
    rw [setKey_of_not_awaiting hk hs']
    exact ⟨rfl, ⟨random, sound, drawFlag, rfl⟩, rfl⟩
  | @resumed r hk hs =>
    have hs' : (e.disguise random sound drawFlag).state = .awaitingKey r := hs
    rw [setKey_of_awaiting hk hs']
    exact ⟨rfl, ⟨random, sound, drawFlag, rfl⟩, rfl⟩

theorem agree_reset (e e' : Emulator) : e.reset.Agree e'.reset := by
  rw [reset_eq, reset_eq]
  exact ⟨rfl, ⟨e'.machine.random, 0, false, rfl⟩, rfl⟩

/-- A tick that does not draw a byte under a mask takes the same course in both. -/
theorem Agree.tick (h : e.Agree e') (hx : ∀ op, e.Executes op → ¬ Opcode.RevealsRandom op) :
    e.tick.Agree e'.tick := by
  obtain ⟨random, sound, drawFlag, rfl⟩ := id h
  obtain ⟨hresult, hemulator, hlog⟩ := tick_lockstep e
    (e.disguise random sound drawFlag) (R := Agree) rfl rfl rfl
    (fun _ => e.advanced.refusal_disguise) h ⟨random, sound, drawFlag, rfl⟩
    fun op i hop hd => h.after fun x mask hi => by
      obtain ⟨ho, -, hmask⟩ := Instruction.decode_eq_random_iff.mp (hi ▸ hd)
      exact hmask ▸ Decidable.not_not.mp fun hne => hx op hop ⟨ho, hne⟩
  exact ⟨hresult, hemulator, hlog⟩

/-- A command gives the same result to both and logs the same records, unless it takes the draw
flag. -/
theorem Agree.perform_of_ne (h : e.Agree e') (hc : c ≠ .takeDrawFlag)
    (hx : c = .tick → ∀ op, e.Executes op → ¬ Opcode.RevealsRandom op) :
    (e.perform c).Agree (e'.perform c) := by
  cases c with
  | load rom => exact (h.load rom).map _
  | tick => exact (h.tick (hx rfl)).map _
  | setKey key down => exact (h.setKey key down).map _
  | reset => exact (agree_reset e e').map fun _ => Answer.done
  | peek => exact ⟨congrArg Answer.ofInstruction h.peek, h, rfl⟩
  | takeDrawFlag => exact absurd rfl hc
  | tickTimers | pixel x y =>
    obtain ⟨random, sound, drawFlag, rfl⟩ := h
    exact ⟨rfl, ⟨random, _, drawFlag, rfl⟩, rfl⟩

theorem Agree.perform (h : e.Agree e')
    (hx : c = .tick → ∀ op, e.Executes op → ¬ Opcode.RevealsRandom op) :
    (e.perform c).emulator.Agree (e'.perform c).emulator := by
  by_cases hc : c = .takeDrawFlag
  · subst hc
    obtain ⟨random, sound, drawFlag, rfl⟩ := h
    exact ⟨random, sound, false, rfl⟩
  · exact (h.perform_of_ne hc hx).emulator

/-! ## Runs -/

theorem Agree.run (h : e.Agree e') (hcs : e.Avoids Opcode.RevealsRandom cs) :
    (e.run cs).emulator.Agree (e'.run cs).emulator := by
  induction cs generalizing e e' with
  | nil => exact h
  | cons c cs ih => exact ih (h.perform hcs.1) hcs.2

/-- Two emulators that agree on all but their random sources, sound timers and draw flags are
given the same commands, and no tick executes CXNN with a mask NN other than 0. Then they agree so
at every point of the run, and have the same instruction next; and every command but taking the
draw flag gives them the same result and logs the same records. -/
theorem hidden_parts_stay_hidden (h : e.Agree e') (hcs : e.Avoids Opcode.RevealsRandom cs) :
    (∀ ds, ds <+: cs →
      (e.run ds).emulator.Agree (e'.run ds).emulator ∧
      (e'.run ds).emulator.peek = (e.run ds).emulator.peek) ∧
    ∀ ds c, ds ++ [c] <+: cs → c ≠ .takeDrawFlag →
      ((e'.run ds).emulator.perform c).result = ((e.run ds).emulator.perform c).result ∧
      ((e'.run ds).emulator.perform c).log = ((e.run ds).emulator.perform c).log := by
  refine ⟨fun ds hds => ?_, fun ds c hds hc => ?_⟩
  · obtain ⟨rest, rfl⟩ := hds
    have hrun := h.run (avoids_append.mp hcs).1
    exact ⟨hrun, hrun.peek⟩
  · obtain ⟨rest, rfl⟩ := hds
    obtain ⟨hds, hnext⟩ := avoids_append.mp (avoids_append.mp hcs).1
    have hstep := (h.run hds).perform_of_ne hc hnext.1
    exact ⟨hstep.result, hstep.log⟩

/-- A program draws a byte under the mask 0, sets the sound timer and then skips an instruction
that it would not skip if it had drawn anything: another seed, a tone and a raised flag make no
difference. -/
theorem hidden_parts_stay_hidden_mask_zero :
    let e := ((ofSeed 7).load
      [0x60, 0x05, 0xC0, 0x00, 0xF0, 0x18, 0x30, 0x00, 0x00, 0xEE, 0x61, 0x01]).emulator
    let e' := e.disguise (.ofSeed 8) 9 true
    let cs : List Command := [.tick, .tick, .tickTimers, .tick, .takeDrawFlag, .tick, .tick]
    e.Agree e' ∧ e.Avoids Opcode.RevealsRandom cs ∧
      (e.run cs).emulator.Agree (e'.run cs).emulator ∧
      (e'.run cs).emulator.peek = (e.run cs).emulator.peek := by
  intro e e' cs
  have h : e.Agree e' := ⟨.ofSeed 8, 9, true, rfl⟩
  have hexecuted : e.executed cs = [0x6005, 0xC000, 0xF018, 0x3000, 0x6101] := by decide +kernel
  have hcs : e.Avoids Opcode.RevealsRandom cs := by
    rw [avoids_iff, hexecuted]
    simp [Opcode.RevealsRandom, Opcode.IsRandom, Opcode.kk]
  have hrun := (hidden_parts_stay_hidden h hcs).1 cs (List.prefix_refl cs)
  exact ⟨h, hcs, hrun⟩

end Emulator

end Chip8
