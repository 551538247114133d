import Chip8.Proofs.Addresses

/-!
# Subroutines

A call puts the address after it on top of the call stack. Until the stack is back at
the depth of the call, that address and those below it stay where they are: calls only
add to what is above them, and returns only take from it. So the return that brings the
stack back takes this very address, whatever the program did meanwhile, to itself too.

* `CallStack.Within`: being inside a call; `within_perform`: commands lead out of it
  only by the return that ends it, `returns_of_within`.
* `call_returns`: from a call to the return that ends it.
-/

namespace Chip8

namespace CallStack

variable {s t : CallStack} {a : Word}

/-! ## Inside a call -/

/-- The stack is inside a call from the stack `t` that returns to `a`: above the
addresses of `t` stands `a`, and above it perhaps those of further calls. -/
def Within (s t : CallStack) (a : Word) : Prop := a :: t.toList <:+ s.toList

theorem within_enter (h : s.depth < stackCapacity) (a : Word) : (s.enter a).Within s a := by
  simp only [Within, toList_enter h, List.suffix_rfl]

theorem Within.depth_lt (h : s.Within t a) : t.depth < s.depth := by
  have := List.IsSuffix.length_le h
  rwa [List.length_cons, length_toList, length_toList] at this

theorem Within.enter (h : s.Within t a) (b : Word) : (s.enter b).Within t a := by
  by_cases hd : s.depth < stackCapacity
  · rw [Within, toList_enter hd]
    exact h.trans (List.suffix_cons b s.toList)
  · rwa [enter_of_full hd]

/-- A return inside a call ends it, or another call made from there. -/
theorem Within.leave_cases (h : s.Within t a) :
    (s.top = a ∧ s.leave.toList = t.toList) ∨ s.leave.Within t a := by
  have hd : 0 < s.depth := Nat.zero_lt_of_lt h.depth_lt
  rw [Within, toList_leave hd, List.suffix_cons_iff] at h
  rcases h with h | h
  · obtain ⟨ha, ht⟩ := List.cons.inj h
    exact .inl ⟨ha.symm, ht.symm⟩
  · exact .inr h

end CallStack

namespace Emulator

open CallStack

variable {e : Emulator} {c : Command} {t : CallStack} {a : Word}

/-! ## The call stack after a command -/

/-- Apart from resets, the stack changes by calls and returns only. -/
theorem stack_perform_cases (hc : c ≠ .reset) :
    (e.perform c).emulator.machine.stack = e.machine.stack ∨
    (∃ b, (e.perform c).emulator.machine.stack = e.machine.stack.enter b) ∨
    (c = .tick ∧ e.Executes 0x00EE ∧ (e.perform c).emulator.pc = e.machine.stack.top ∧
      (e.perform c).emulator.machine.stack = e.machine.stack.leave) := by
  have hstep := e.step_perform c
  generalize (e.perform c).emulator = e' at hstep ⊢
  cases hstep with
  | @execute op i hx hd _ =>
    rw [pc, machine_after]
    cases i with
    | ret =>
      obtain rfl := Instruction.decode_eq_ret_iff.mp hd
      exact .inr (.inr ⟨rfl, hx, e.advanced.pc_effect .ret, e.advanced.stack_effect .ret⟩)
    | call b => exact .inr (.inl ⟨_, e.advanced.stack_effect (.call b)⟩)
    | _ => exact .inl (e.advanced.stack_effect _)
  | reset => exact absurd rfl hc
  | _ => exact .inl rfl

theorem executes_call {op : Word} (hs : e.state = .running)
    (hw : e.machine.memory.HoldsWord e.pc op) (ho : op &&& 0xF000 = 0x2000)
    (hd : e.machine.stack.depth < stackCapacity) :
    e.Executes op ∧ e.tick.emulator.machine.stack = e.machine.stack.enter (e.pc + 2) := by
  have hi := Instruction.decode_eq_call_iff.mpr ⟨ho, rfl⟩
  obtain ⟨hx, he⟩ := Executes.of_accepted hs hw hi (if_pos hd)
  refine ⟨hx, ?_⟩
  rw [he, machine_after]
  exact e.advanced.stack_effect _

theorem within_perform (h : e.machine.stack.Within t a) (hc : c ≠ .reset)
    (hd : (e.perform c).emulator.machine.stack.depth ≠ t.depth) :
    (e.perform c).emulator.machine.stack.Within t a := by
  rcases stack_perform_cases (e := e) hc with hs | ⟨b, hs⟩ | ⟨-, -, -, hs⟩
  · rwa [hs]
  · rw [hs]
    exact h.enter b
  · rw [hs] at hd ⊢
    rcases h.leave_cases with ⟨-, ht⟩ | hw
    · exact absurd (by rw [← length_toList, ht, length_toList]) hd
    · exact hw

/-- The command that brings the stack back to the depth of the call is a tick that
executes 00EE and goes to the return address of the call. -/
theorem returns_of_within (h : e.machine.stack.Within t a) (hc : c ≠ .reset)
    (hd : (e.perform c).emulator.machine.stack.depth = t.depth) :
    c = .tick ∧ e.Executes 0x00EE ∧ (e.perform c).emulator.pc = a ∧
      (e.perform c).emulator.machine.stack.toList = t.toList := by
  rcases stack_perform_cases (e := e) hc with hs | ⟨b, hs⟩ | ⟨rfl, hx, hpc, hs⟩
  · rw [hs] at hd
    exact absurd hd (Nat.ne_of_gt h.depth_lt)
  · rw [hs] at hd
    exact absurd hd (Nat.ne_of_gt (h.enter b).depth_lt)
  · rw [hs] at hd
    rcases h.leave_cases with ⟨rfl, ht⟩ | hw
    · exact ⟨rfl, hx, hpc, by rw [hs, ht]⟩
    · exact absurd hd (Nat.ne_of_gt hw.depth_lt)

/-- A reachable emulator that runs, has 2NNN at its program counter and room on the call
stack makes the call. As long as commands other than resets do not bring the stack back
to its old depth, the old return addresses and the one of the call stay where they are.
The command that does is a tick that executes 00EE: it leads to the instruction after
the call, with the call stack as it was before. -/
theorem call_returns {op : Word} (he : e.Reachable) (hs : e.state = .running)
    (hw : e.machine.memory.HoldsWord e.pc op) (ho : op &&& 0xF000 = 0x2000)
    (hd : e.machine.stack.depth < stackCapacity) :
    e.tick.result = .ok () ∧ e.tick.emulator.machine.stack.depth = e.machine.stack.depth + 1 ∧
    ∀ cs : List Command, .reset ∉ cs →
      e.tick.emulator.Throughout (fun f => f.machine.stack.depth ≠ e.machine.stack.depth) cs →
      e.tick.emulator.Throughout
        (fun f => (e.pc + 2) :: e.machine.stack.toList <:+ f.machine.stack.toList) cs ∧
      ∀ c, c ≠ .reset →
        let f := (e.tick.emulator.run cs).emulator
        let g := (f.perform c).emulator
        g.machine.stack.depth = e.machine.stack.depth →
          c = .tick ∧ f.Executes 0x00EE ∧ g.pc = e.pc + 2 ∧ g.machine.stack = e.machine.stack := by
  obtain ⟨hx, hstack⟩ := executes_call hs hw ho hd
  have hin : e.tick.emulator.machine.stack.Within e.machine.stack (e.pc + 2) := by
    rw [hstack]
    exact within_enter hd _
  refine ⟨hx.done, ?_, fun cs hcs hoff => ?_⟩
  · rw [← length_toList, hstack, toList_enter hd, List.length_cons, length_toList]
  have hall : e.tick.emulator.Throughout
      (fun f => f.machine.stack.Within e.machine.stack (e.pc + 2)) cs :=
    hoff.of_step (fun c hc f hf => within_perform hf fun h => hcs (h ▸ hc)) hin
  refine ⟨hall, fun c hc hback => ?_⟩
  obtain ⟨rfl, hret, hpc, ht⟩ := returns_of_within hall.last hc hback
  -- the same addresses make the same stack, as both stacks are reachable and so cleared
  have hb : e.Bounded := he.induct bounded_fresh fun _ c he => he.perform c
  have hb' := (run_induct (fun _ c he => he.perform c) (hb.perform .tick) cs).perform .tick
  exact ⟨rfl, hret, hpc, eq_of_toList_eq hb'.stack.unused hb.stack.unused ht⟩

/-- A subroutine that calls another one, with a key pressed meanwhile: the second return
is the one that ends the first call. -/
theorem call_returns_nested :
    let rom : List Byte :=
      [0x22, 0x06, 0x00, 0x00, 0x00, 0x00, 0x22, 0x0A, 0x00, 0xEE, 0x00, 0xEE]
    let e := ((ofSeed 7).load rom).emulator
    let f := (e.tick.emulator.run [.tick, .setKey 3 true, .tick]).emulator
    e.Reachable ∧ e.tick.result = .ok () ∧ f.Executes 0x00EE ∧ (f.perform .tick).emulator.pc = 0x202 ∧
      (f.perform .tick).emulator.machine.stack = e.machine.stack := by
  intro rom e f
  have he : e.Reachable := ⟨.ofSeed 7, [.load rom], rfl⟩
  have hl : e = _ := congrArg Response.emulator (load_of_le (by decide) (ofSeed 7))
  have hw : e.machine.memory.HoldsWord e.pc 0x2206 := by
    rw [hl]
    exact Memory.holdsWord_stored (by decide)
  obtain ⟨hok, -, hrun⟩ := call_returns he (by decide +kernel) hw (by decide) (by decide +kernel)
  have hoff : e.tick.emulator.Throughout (fun f => f.machine.stack.depth ≠ e.machine.stack.depth)
      [.tick, .setKey 3 true, .tick] := by decide +kernel
  obtain ⟨-, hx, hpc, hs⟩ := (hrun _ (by decide) hoff).2 .tick nofun (by decide +kernel)
  exact ⟨he, hok, hx, hpc, hs⟩

end Emulator

end Chip8
