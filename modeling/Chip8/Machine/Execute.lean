import Chip8.Instruction.Basic
import Chip8.Machine.Basic

/-!
# Executing an instruction

`Machine.execute` applies an instruction to a machine whose program counter
already points past it. Operands are checked before anything changes, and a flag
is set after the result, so it wins if both go to the same register.
-/

namespace Chip8

/-- What follows an instruction. -/
inductive Flow where
  /-- The next instruction. -/
  | next
  /-- The next instruction; the picture was drawn. -/
  | redraw
  /-- A key press, to be put into a register. -/
  | awaitKey (register : Byte)
deriving DecidableEq, Repr

namespace Machine

/-- Changes the machine and goes on. -/
def proceed (f : Machine → Machine) : Action Machine Flow := fun m => .ok .next (f m)

/-- Changes the registers and goes on. -/
def proceedRegisters (f : Registers → Registers) : Action Machine Flow := proceed (mapRegisters f)

/-- Skips the next instruction if a condition holds. -/
def skipIf (c : Machine → Bool) : Action Machine Flow :=
  proceed fun m => if c m then m.mapRegisters .advance else m

/-- Sets register `x` to a function of the registers `x` and `y`. -/
def combine (x y : Byte) (f : Byte → Byte → Byte) : Action Machine Flow :=
  proceedRegisters fun r => r.set x (f (r.get x) (r.get y))

/-- As `Machine.combine`, and sets the flag by a second function. -/
def combineFlag (x y : Byte) (f : Byte → Byte → Byte) (flag : Byte → Byte → Bool) :
    Action Machine Flow :=
  proceedRegisters fun r =>
    (r.set x (f (r.get x) (r.get y))).setFlag (flag (r.get x) (r.get y))

/-- The decimal digits of a byte, three of them. -/
def decimalDigits (b : Byte) : List Byte := [b / 100, b / 10 % 10, b % 10]

/-- Continues at an address plus the value of register 0; undefined if the sum is
no word. -/
def jumpBeyond (a : Word) : Action Machine Flow := fun m =>
  if a.toNat + (m.reg 0).toNat < 0x10000 then
    .ok .next (m.mapRegisters (·.jump (a + (m.reg 0).setWidth 16)))
  else .error .undefined m

/-- Stores the registers from 0 to `x` at the index register; undefined if there is
no register `x`. -/
def store (x : Byte) : Action Machine Unit := fun m =>
  if x.toNat < registerCount then
    onMemory (Memory.writeBlock m.registers.index (m.registers.data.toList.take (x.toNat + 1))) m
  else .error .undefined m

/-- Paints the sprite at the index register at the position that two registers hold,
and sets the flag if a pixel was switched off. -/
def drawSprite (x y rows : Byte) : Action Machine Unit := do
  let m ← get
  let sprite ← Action.ofExcept (m.memory.slice m.registers.index rows.toNat)
  Action.update fun m =>
    let (hit, screen) := m.screen.paint (m.reg x) (m.reg y) sprite
    { m with screen, registers := m.registers.setFlag hit }

/-- Applies an instruction. -/
def execute : Instruction → Action Machine Flow
  | .sys _ => proceed id
  | .clear => fun m => .ok .redraw { m with screen := m.screen.clear }
  | .ret => do
    let a ← onStack CallStack.pop
    proceedRegisters (·.jump a)
  | .jump a => proceedRegisters (·.jump a)
  | .call a => do
    let m ← get
    onStack (CallStack.push m.registers.pc)
    proceedRegisters (·.jump a)
  | .skipEqByte x b => skipIf fun m => m.reg x == b
  | .skipNeByte x b => skipIf fun m => m.reg x != b
  | .skipEq x y => skipIf fun m => m.reg x == m.reg y
  | .skipNe x y => skipIf fun m => m.reg x != m.reg y
  | .loadByte x b => proceedRegisters (·.set x b)
  | .addByte x b => proceedRegisters (·.add x b)
  | .copy x y => combine x y fun _ b => b
  | .or x y => combine x y (· ||| ·)
  | .and x y => combine x y (· &&& ·)
  | .xor x y => combine x y (· ^^^ ·)
  | .add x y => combineFlag x y (· + ·) fun a b => BitVec.uaddOverflow a b
  | .sub x y => combineFlag x y (· - ·) fun a b => b.ule a
  | .subFrom x y => combineFlag x y (fun a b => b - a) fun a b => a.ule b
  | .shiftRight x => combineFlag x x (fun a _ => a >>> 1) fun a _ => a.getLsbD 0
  | .shiftLeft x => combineFlag x x (fun a _ => a <<< 1) fun a _ => a.getLsbD 7
  | .setIndex a => proceedRegisters (·.point a)
  | .jumpOffset a => jumpBeyond a
  | .random x mask => proceed fun m =>
    let (b, random) := m.random.draw
    { m with random, registers := m.registers.set x (mask &&& b) }
  | .draw x y rows => do
    drawSprite x y rows
    return .redraw
  | .skipPressed x => skipIf fun m => m.keypad.isDown (m.reg x)
  | .skipReleased x => skipIf fun m => !m.keypad.isDown (m.reg x)
  | .readDelay x => proceed fun m => m.mapRegisters (·.set x m.timers.delay)
  | .awaitKey x => pure (.awaitKey x)
  | .setDelay x => proceed fun m => { m with timers := { m.timers with delay := m.reg x } }
  | .setSound x => proceed fun m => { m with timers := { m.timers with sound := m.reg x } }
  | .addIndex x => proceedRegisters fun r => r.point (r.index + (r.get x).setWidth 16)
  | .pointGlyph x => proceedRegisters fun r => r.point (glyphAddress (r.get x))
  | .storeDecimal x => do
    let m ← get
    onMemory (Memory.writeBlock m.registers.index (decimalDigits (m.reg x)))
    return .next
  | .storeRegisters x => do
    store x
    return .next
  | .loadRegisters x => do
    let m ← get
    let values ← Action.ofExcept (m.memory.slice m.registers.index (x.toNat + 1))
    proceedRegisters (·.setAll values)

end Machine

end Chip8
