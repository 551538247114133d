import Chip8.Machine.Execute
import Chip8.Proofs.CallStack
import Chip8.Proofs.Memory

/-!
# Instructions as guard and effect

An instruction either is refused, by a condition on the machine it finds
(`Machine.refusal`), or changes the machine by a total function
(`Machine.effect`) and says what follows (`Instruction.flow`). `execute_eq`: that
is all that `Machine.execute` does. In particular an instruction that fails has
changed nothing.

* `stack_effect`, `pc_effect`, `memory_effect`, `screen_effect`, `random_effect`,
  `timers_effect`, `keypad_effect`, `index_effect`: the parts of the machine after an
  instruction, the data registers apart.
-/

namespace Chip8

/-- A fault is not an undefined operation. -/
theorem Failure.map_fault_ne_undefined (f : Option Fault) :
    f.map Failure.fault ≠ some .undefined := by
  cases f <;> simp

theorem Failure.map_fault_eq_some_iff {o : Option Fault} {f : Fault} :
    o.map Failure.fault = some (.fault f) ↔ o = some f := by
  cases o <;> simp

/-- What follows an instruction that is not refused. -/
def Instruction.flow : Instruction → Flow
  | .clear | .draw .. => .redraw
  | .awaitKey x => .awaitKey x
  | _ => .next

namespace Machine

/-! ## Guard and effect -/

/-- Why an instruction is refused, if it is. -/
def refusal (m : Machine) : Instruction → Option Failure
  | .ret => if 0 < m.stack.depth then none else some (.fault .stackUnderflow)
  | .call _ => if m.stack.depth < stackCapacity then none else some (.fault .stackOverflow)
  | .jumpOffset a => if a.toNat + (m.reg 0).toNat < 0x10000 then none else some .undefined
  | .draw _ _ rows => (Memory.readFault m.registers.index rows.toNat).map .fault
  | .storeDecimal _ => (Memory.writeFault m.registers.index 3).map .fault
  | .storeRegisters x =>
    if x.toNat < registerCount then
      (Memory.writeFault m.registers.index (x.toNat + 1)).map .fault
    else some .undefined
  | .loadRegisters x => (Memory.readFault m.registers.index (x.toNat + 1)).map .fault
  | _ => none

/-- The machine past the next instruction if a condition holds. -/
def skip (m : Machine) (c : Bool) : Machine := if c then m.mapRegisters .advance else m

/-- The machine with a sprite painted and the flag set by the collision. -/
def painted (m : Machine) (x y : Byte) (sprite : List Byte) : Machine :=
  { m with
    screen := (m.screen.paint (m.reg x) (m.reg y) sprite).2
    registers := m.registers.setFlag (m.screen.paint (m.reg x) (m.reg y) sprite).1 }

/-- What an instruction that is not refused makes of the machine. -/
def effect (m : Machine) : Instruction → Machine
  | .sys _ | .awaitKey _ => m
  | .clear => { m with screen := .blank }
  | .ret => { m with stack := m.stack.leave, registers := m.registers.jump m.stack.top }
  | .jump a => m.mapRegisters (·.jump a)
  | .call a => { m with stack := m.stack.enter m.registers.pc, registers := m.registers.jump a }
  | .skipEqByte x b => m.skip (m.reg x == b)
  | .skipNeByte x b => m.skip (m.reg x != b)
  | .skipEq x y => m.skip (m.reg x == m.reg y)
  | .skipNe x y => m.skip (m.reg x != m.reg y)
  | .loadByte x b => m.mapRegisters (·.set x b)
  | .addByte x b => m.mapRegisters (·.add x b)
  | .copy x y => m.mapRegisters (·.set x (m.reg y))
  | .or x y => m.mapRegisters (·.set x (m.reg x ||| m.reg y))
  | .and x y => m.mapRegisters (·.set x (m.reg x &&& m.reg y))
  | .xor x y => m.mapRegisters (·.set x (m.reg x ^^^ m.reg y))
  | .add x y => m.mapRegisters fun r =>
    (r.set x (m.reg x + m.reg y)).setFlag (BitVec.uaddOverflow (m.reg x) (m.reg y))
  | .sub x y => m.mapRegisters fun r =>
    (r.set x (m.reg x - m.reg y)).setFlag ((m.reg y).ule (m.reg x))
  | .subFrom x y => m.mapRegisters fun r =>
    (r.set x (m.reg y - m.reg x)).setFlag ((m.reg x).ule (m.reg y))
  | .shiftRight x => m.mapRegisters fun r =>
    (r.set x (m.reg x >>> 1)).setFlag ((m.reg x).getLsbD 0)
  | .shiftLeft x => m.mapRegisters fun r =>
    (r.set x (m.reg x <<< 1)).setFlag ((m.reg x).getLsbD 7)
  | .setIndex a => m.mapRegisters (·.point a)
  | .jumpOffset a => m.mapRegisters (·.jump (a + (m.reg 0).setWidth 16))
  | .random x mask =>
    { m with random := m.random.draw.2, registers := m.registers.set x (mask &&& m.random.draw.1) }
  | .draw x y rows => m.painted x y (m.memory.bytesFrom m.registers.index rows.toNat)
  | .skipPressed x => m.skip (m.keypad.isDown (m.reg x))
  | .skipReleased x => m.skip (!m.keypad.isDown (m.reg x))
  | .readDelay x => m.mapRegisters (·.set x m.timers.delay)
  | .setDelay x => { m with timers := { m.timers with delay := m.reg x } }
  | .setSound x => { m with timers := { m.timers with sound := m.reg x } }
  | .addIndex x => m.mapRegisters (·.point (m.registers.index + (m.reg x).setWidth 16))
  | .pointGlyph x => m.mapRegisters (·.point (glyphAddress (m.reg x)))
  | .storeDecimal x =>
    { m with memory := m.memory.stored m.registers.index (decimalDigits (m.reg x)) }
  | .storeRegisters x =>
    { m with
      memory := m.memory.stored m.registers.index (m.registers.data.toList.take (x.toNat + 1)) }
  | .loadRegisters x =>
    m.mapRegisters (·.setAll (m.memory.bytesFrom m.registers.index (x.toNat + 1)))

/-! ## Agreement with `execute` -/

theorem execute_ret (m : Machine) :
    execute .ret m = match m.refusal .ret with
      | some f => .error f m
      | none => .ok .next (m.effect .ret) := by
  simp only [execute, refusal, Action.bind_apply, onStack, Action.onPart, CallStack.pop_eq]
  by_cases h : 0 < m.stack.depth
  · simp only [h, ↓reduceIte]
    rfl
  · simp only [h, ↓reduceIte]

theorem execute_call (a : Word) (m : Machine) :
    execute (.call a) m = match m.refusal (.call a) with
      | some f => .error f m
      | none => .ok .next (m.effect (.call a)) := by
  simp only [execute, refusal, Action.bind_apply, Action.get_apply, onStack, Action.onPart,
    CallStack.push_eq]
  by_cases h : m.stack.depth < stackCapacity
  · simp only [h, ↓reduceIte]
    rfl
  · simp only [h, ↓reduceIte]

theorem execute_draw (x y rows : Byte) (m : Machine) :
    execute (.draw x y rows) m = match m.refusal (.draw x y rows) with
      | some f => .error f m
      | none => .ok .redraw (m.effect (.draw x y rows)) := by
  simp only [execute, drawSprite, refusal, Action.bind_apply, Action.get_apply, Memory.slice_eq]
  cases Memory.readFault m.registers.index rows.toNat <;> rfl

theorem execute_storeDecimal (x : Byte) (m : Machine) :
    execute (.storeDecimal x) m = match m.refusal (.storeDecimal x) with
      | some f => .error f m
      | none => .ok .next (m.effect (.storeDecimal x)) := by
  have hd : decimalDigits (m.reg x) ≠ [] := List.cons_ne_nil _ _
  simp only [execute, refusal, Action.bind_apply, Action.get_apply, onMemory, Action.onPart,
    Memory.writeBlock_of_ne_nil hd, show (decimalDigits (m.reg x)).length = 3 from rfl]
  cases Memory.writeFault m.registers.index 3 <;> rfl

theorem execute_storeRegisters (x : Byte) (m : Machine) :
    execute (.storeRegisters x) m = match m.refusal (.storeRegisters x) with
      | some f => .error f m
      | none => .ok .next (m.effect (.storeRegisters x)) := by
  simp only [execute, refusal, store, Action.bind_apply]
  by_cases hx : x.toNat < registerCount
  · have hl := m.registers.length_take_data hx
    have hd := List.ne_nil_of_length_eq_add_one hl
    simp only [hx, ↓reduceIte, onMemory, Action.onPart, Memory.writeBlock_of_ne_nil hd, hl]
    cases Memory.writeFault m.registers.index (x.toNat + 1) <;> rfl
  · simp only [hx, ↓reduceIte]

theorem execute_loadRegisters (x : Byte) (m : Machine) :
    execute (.loadRegisters x) m = match m.refusal (.loadRegisters x) with
      | some f => .error f m
      | none => .ok .next (m.effect (.loadRegisters x)) := by
  simp only [execute, refusal, Action.bind_apply, Action.get_apply, Memory.slice_eq]
  cases Memory.readFault m.registers.index (x.toNat + 1) <;> rfl

/-- An instruction is refused and changes nothing, or has its effect. -/
theorem execute_eq (i : Instruction) (m : Machine) :
    execute i m = match m.refusal i with
      | some f => .error f m
      | none => .ok i.flow (m.effect i) := by
  cases i with
  | clear =>
    simp only [execute, m.screen.clear_eq_blank]
    rfl
  | ret => exact execute_ret m
  | call a => exact execute_call a m
  | draw x y rows => exact execute_draw x y rows m
  | storeDecimal x => exact execute_storeDecimal x m
  | storeRegisters x => exact execute_storeRegisters x m
  | loadRegisters x => exact execute_loadRegisters x m
  | jumpOffset a =>
    simp only [execute, jumpBeyond, refusal]
    split <;> rfl
  | _ => rfl

end Machine

/-! ## The parts of the machine after an instruction -/

namespace Machine

/-- Whether an instruction skips the next one. -/
def skips (m : Machine) : Instruction → Bool
  | .skipEqByte x b => m.reg x == b
  | .skipNeByte x b => m.reg x != b
  | .skipEq x y => m.reg x == m.reg y
  | .skipNe x y => m.reg x != m.reg y
  | .skipPressed x => m.keypad.isDown (m.reg x)
  | .skipReleased x => !m.keypad.isDown (m.reg x)
  | _ => false

/-- A skip keeps every part of the machine that changes of the registers keep. -/
theorem part_skip {α : Type} {part : Machine → α}
    (h : ∀ f m, part (mapRegisters f m) = part m) (m : Machine) (c : Bool) :
    part (m.skip c) = part m := by
  rw [skip]
  split
  · exact h _ m
  · rfl

theorem pc_skip (m : Machine) (c : Bool) :
    (m.skip c).registers.pc = if c then m.registers.pc + 2 else m.registers.pc := by
  rw [skip]
  split <;> rfl

/-- Only calls and returns touch the call stack. -/
theorem stack_effect (m : Machine) (i : Instruction) :
    (m.effect i).stack = match i with
      | .ret => m.stack.leave
      | .call _ => m.stack.enter m.registers.pc
      | _ => m.stack := by
  cases i with
  | skipEqByte | skipNeByte | skipEq | skipNe | skipPressed | skipReleased =>
    exact part_skip (fun _ _ => rfl) m _
  | _ => rfl

/-- The program counter stays where it is, past the instruction, but for jumps,
calls, returns and skips. -/
theorem pc_effect (m : Machine) (i : Instruction) :
    (m.effect i).registers.pc = match i with
      | .ret => m.stack.top
      | .jump a | .call a => a
      | .jumpOffset a => a + (m.reg 0).setWidth 16
      | i => if m.skips i then m.registers.pc + 2 else m.registers.pc := by
  cases i with
  | skipEqByte | skipNeByte | skipEq | skipNe | skipPressed | skipReleased => exact m.pc_skip _
  | loadRegisters x => exact m.registers.pc_setAll _
  | _ => rfl

/-- Only the two stores write memory. -/
theorem memory_effect (m : Machine) (i : Instruction) :
    (m.effect i).memory = match i with
      | .storeDecimal x => m.memory.stored m.registers.index (decimalDigits (m.reg x))
      | .storeRegisters x =>
        m.memory.stored m.registers.index (m.registers.data.toList.take (x.toNat + 1))
      | _ => m.memory := by
  cases i with
  | skipEqByte | skipNeByte | skipEq | skipNe | skipPressed | skipReleased =>
    exact part_skip (fun _ _ => rfl) m _
  | _ => rfl

/-- Only clearing it and painting a sprite change the screen. -/
theorem screen_effect (m : Machine) (i : Instruction) :
    (m.effect i).screen = match i with
      | .clear => .blank
      | .draw x y rows =>
        (m.screen.paint (m.reg x) (m.reg y) (m.memory.bytesFrom m.registers.index rows.toNat)).2
      | _ => m.screen := by
  cases i with
  | skipEqByte | skipNeByte | skipEq | skipNe | skipPressed | skipReleased =>
    exact part_skip (fun _ _ => rfl) m _
  | _ => rfl

/-- Only a random byte is drawn from the random source, and one word for it. -/
theorem random_effect (m : Machine) (i : Instruction) :
    (m.effect i).random = match i with
      | .random _ _ => m.random.draw.2
      | _ => m.random := by
  cases i with
  | skipEqByte | skipNeByte | skipEq | skipNe | skipPressed | skipReleased =>
    exact part_skip (fun _ _ => rfl) m _
  | _ => rfl

/-- Only the two instructions for it set a timer. -/
theorem timers_effect (m : Machine) (i : Instruction) :
    (m.effect i).timers = match i with
      | .setDelay x => { m.timers with delay := m.reg x }
      | .setSound x => { m.timers with sound := m.reg x }
      | _ => m.timers := by
  cases i with
  | skipEqByte | skipNeByte | skipEq | skipNe | skipPressed | skipReleased =>
    exact part_skip (fun _ _ => rfl) m _
  | _ => rfl

/-- No instruction touches the keypad. -/
theorem keypad_effect (m : Machine) (i : Instruction) : (m.effect i).keypad = m.keypad := by
  cases i with
  | skipEqByte | skipNeByte | skipEq | skipNe | skipPressed | skipReleased =>
    exact part_skip (fun _ _ => rfl) m _
  | _ => rfl

theorem index_skip (m : Machine) (c : Bool) :
    (m.skip c).registers.index = m.registers.index := by
  rw [skip]
  split <;> rfl

/-- Only the instructions for it move the index register: block accesses leave it where it is. -/
theorem index_effect (m : Machine) (i : Instruction) :
    (m.effect i).registers.index = match i with
      | .setIndex a => a
      | .addIndex x => m.registers.index + (m.reg x).setWidth 16
      | .pointGlyph x => glyphAddress (m.reg x)
      | _ => m.registers.index := by
  cases i with
  | skipEqByte | skipNeByte | skipEq | skipNe | skipPressed | skipReleased => exact m.index_skip _
  | loadRegisters x => exact m.registers.index_setAll _
  | _ => rfl

theorem reg_skip (m : Machine) (c : Bool) (r : Byte) : (m.skip c).reg r = m.reg r := by
  rw [skip]
  split <;> rfl

end Machine

end Chip8
