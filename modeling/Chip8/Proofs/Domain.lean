import Chip8.Proofs.Emulator

/-!
# No operation outside its domain

Some operations have no result for some operands: a run of digits that leaves the
opcode, a sum that is no word, an element or a range that an array does not have.
`Emulator.runOps` lists those that a run gets to.

* `allDefined_partialOps_iff`: an instruction is undefined just where one of the
  operations it gets to is.
* `run_stays_defined`: all operations of all runs are inside their domains.
-/

namespace Chip8

/-- An operation that is defined for some operands only. -/
inductive PartialOp where
  /-- The number written by the `len` digits of an opcode from digit `first` on. -/
  | digits (first len : Nat)
  /-- The sum of two words. -/
  | add (a b : Word)
  /-- Element `i` of an array of `size`. -/
  | element (i size : Nat)
  /-- The elements from `start` on and before `stop` of an array of `size`. -/
  | range (start stop size : Nat)

namespace PartialOp

/-- The operands are in the domain of the operation. For a run of digits, which is
shifted out of the opcode and masked, no difference is negative and both shifts
are narrower than the words of 16 and 32 bits that they shift. -/
def Defined : PartialOp → Prop
  | digits first len =>
    1 ≤ first ∧ len ≤ 4 ∧ first - 1 ≤ 4 - len ∧ 4 * (4 - len - (first - 1)) < 16 ∧ 4 * len < 32
  | add a b => a.toNat + b.toNat < 0x10000
  | element i size => i < size
  | range start stop size => start ≤ stop ∧ stop ≤ size

@[simp] theorem defined_add {a b : Word} : (add a b).Defined ↔ a.toNat + b.toNat < 0x10000 := .rfl

@[simp] theorem defined_element {i size : Nat} : (element i size).Defined ↔ i < size := .rfl

@[simp] theorem defined_range {start stop size : Nat} :
    (range start stop size).Defined ↔ start ≤ stop ∧ stop ≤ size := .rfl

/-- A run of digits is read just where its number is defined. -/
theorem isSome_digits?_iff (op : Word) {first len : Nat} :
    (Opcode.digits? op first len).isSome = true ↔ (digits first len).Defined := by
  simp only [Opcode.digits?, Defined]
  split
  · next h => simp only [Option.isSome_some, true_iff]; omega
  · next h => simp only [Option.isSome_none, Bool.false_eq_true, false_iff]; omega

/-- All the operations of a list are inside their domains. -/
def AllDefined (os : List PartialOp) : Prop := ∀ o ∈ os, o.Defined

@[simp] theorem allDefined_nil : AllDefined [] := nofun

@[simp] theorem allDefined_cons {o : PartialOp} {os : List PartialOp} :
    AllDefined (o :: os) ↔ o.Defined ∧ AllDefined os := List.forall_mem_cons

@[simp] theorem allDefined_append {os ps : List PartialOp} :
    AllDefined (os ++ ps) ↔ AllDefined os ∧ AllDefined ps := List.forall_mem_append

end PartialOp

open PartialOp

/-! ## Registers, keys and pixels -/

/-- A data register, found by its low nibble. -/
def registerOp (r : Byte) : PartialOp := .element (r &&& 0xF).toNat registerCount

/-- A key, found by its low nibble. -/
def keyOp (b : Byte) : PartialOp := .element (b &&& 0xF).toNat keyCount

/-- A pixel, found row by row. -/
def pixelOp (x y : Nat) : PartialOp :=
  .element (y % screenHeight * screenWidth + x % screenWidth) (screenHeight * screenWidth)

/-- The pixels under the ones of a sprite. -/
def paintOps (x y : Nat) (sprite : List Byte) : List PartialOp :=
  sprite.zipIdx.flatMap fun (row, i) =>
    ((List.range 8).filter fun j => row.getMsbD j).map fun j => pixelOp (x + j) (y + i)

/-! These are the elements that `Registers.get` and `Registers.set`, `Keypad.isDown`,
`Screen.get` and `Screen.paint` take. -/

theorem registerOp_eq (r : Byte) : registerOp r = .element r.low registerCount := by
  rw [registerOp, Byte.toNat_and_low]

theorem keyOp_eq (b : Byte) : keyOp b = .element b.low keyCount := by
  rw [keyOp, Byte.toNat_and_low]

theorem pixelOp_eq (x y : Nat) :
    pixelOp x y = .element (Screen.index x y) (screenHeight * screenWidth) := rfl

@[simp] theorem defined_registerOp (r : Byte) : (registerOp r).Defined := by
  rw [registerOp_eq]
  exact r.low.isLt

@[simp] theorem defined_keyOp (b : Byte) : (keyOp b).Defined := by
  rw [keyOp_eq]
  exact b.low.isLt

@[simp] theorem defined_pixelOp (x y : Nat) : (pixelOp x y).Defined := by
  rw [pixelOp_eq]
  exact (Screen.index x y).isLt

theorem paintOps_eq (x y : Nat) (sprite : List Byte) :
    paintOps x y sprite =
      (Screen.hits x y sprite).map fun c => .element c (screenHeight * screenWidth) := by
  simp only [paintOps, Screen.hits, List.map_flatMap, List.map_map]
  rfl

theorem allDefined_paintOps (x y : Nat) (sprite : List Byte) :
    AllDefined (paintOps x y sprite) := by
  rw [paintOps_eq]
  intro o ho
  obtain ⟨c, -, rfl⟩ := List.mem_map.mp ho
  exact c.isLt

/-! ## Memory and the call stack -/

namespace Memory

/-- To fetch a word is to count on from its first address, if there is a byte. -/
def wordOps (a : Word) : List PartialOp := if a.toNat < memorySize then [.add a 1] else []

/-- To read a block is to take a range of memory, once it is checked. -/
def readOps (a : Word) (n : Nat) : List PartialOp :=
  match readFault a n with
  | some _ => []
  | none => [.range a.toNat (a.toNat + n) memorySize]

/-- To write a block is to take a range of memory, once it is checked. -/
def writeOps (a : Word) (n : Nat) : List PartialOp :=
  match writeFault a n with
  | some _ => []
  | none => [.range a.toNat (a.toNat + n) memorySize]

theorem allDefined_wordOps (a : Word) : AllDefined (wordOps a) := by
  rw [wordOps]
  split
  · next h =>
    simp only [memorySize] at h
    simp only [allDefined_cons, allDefined_nil, and_true, defined_add,
      show (1 : Word).toNat = 1 from rfl]
    omega
  · exact allDefined_nil

theorem allDefined_readOps (a : Word) (n : Nat) : AllDefined (readOps a n) := by
  rw [readOps]
  split
  · exact allDefined_nil
  · next h =>
    simp only [allDefined_cons, allDefined_nil, and_true, defined_range]
    exact ⟨Nat.le_add_right _ _, readFault_eq_none_iff.mp h⟩

/-- Only an empty block passes the check and still lies outside memory. -/
theorem allDefined_writeOps {n : Nat} (hn : 0 < n) (a : Word) : AllDefined (writeOps a n) := by
  rw [writeOps]
  split
  · exact allDefined_nil
  · next h =>
    have := writeFault_eq_none_iff.mp h
    simp only [allDefined_cons, allDefined_nil, and_true, defined_range, memorySize]
    omega

end Memory

namespace CallStack

/-- To push is to take the next slot, unless all are in use. -/
def pushOps (s : CallStack) : List PartialOp :=
  if s.depth = stackCapacity then [] else [.element s.depth stackCapacity]

/-- To pop is to take the latest slot, unless none is in use. -/
def popOps (s : CallStack) : List PartialOp :=
  if s.depth = 0 then [] else [.element (s.depth - 1) stackCapacity]

theorem allDefined_pushOps (s : CallStack) : AllDefined s.pushOps := by
  rw [pushOps]
  split
  · exact allDefined_nil
  · next h =>
    simp only [allDefined_cons, allDefined_nil, and_true, defined_element]
    exact Nat.lt_of_le_of_ne s.depth_le h

theorem allDefined_popOps (s : CallStack) : AllDefined s.popOps := by
  have := s.depth_le
  rw [popOps]
  split
  · exact allDefined_nil
  · next h =>
    simp only [allDefined_cons, allDefined_nil, and_true, defined_element]
    omega

end CallStack

/-! ## Instructions -/

/-- The runs of digits that hold the operands of an opcode. -/
def Opcode.fieldOps : List PartialOp :=
  [.digits 2 1, .digits 3 1, .digits 4 1, .digits 3 2, .digits 2 3]

theorem Opcode.allDefined_fieldOps (op : Word) : AllDefined fieldOps := by
  simp only [fieldOps, allDefined_cons, allDefined_nil, ← isSome_digits?_iff op,
    digits?_x, digits?_y, digits?_n, digits?_kk, digits?_nnn, Option.isSome_some, and_self]

namespace Machine

/-- The operations that an instruction gets to. -/
def partialOps (m : Machine) : Instruction → List PartialOp
  | .sys _ | .clear | .jump _ | .setIndex _ | .awaitKey _ => []
  | .ret => m.stack.popOps
  | .call _ => m.stack.pushOps
  | .skipEqByte x _ | .skipNeByte x _ | .loadByte x _ | .addByte x _ | .random x _ | .readDelay x
  | .setDelay x | .setSound x | .addIndex x => [registerOp x]
  | .skipEq x y | .skipNe x y | .copy x y | .or x y | .and x y | .xor x y =>
    [registerOp x, registerOp y]
  | .add x y | .sub x y | .subFrom x y => [registerOp x, registerOp y, registerOp flagRegister]
  | .shiftRight x | .shiftLeft x => [registerOp x, registerOp flagRegister]
  | .jumpOffset a => [registerOp 0, .add a ((m.reg 0).setWidth 16)]
  | .draw x y rows =>
    [registerOp x, registerOp y] ++ Memory.readOps m.registers.index rows.toNat ++
      match m.memory.slice m.registers.index rows.toNat with
      | .ok sprite => paintOps (m.reg x).toNat (m.reg y).toNat sprite ++ [registerOp flagRegister]
      | .error _ => []
  | .skipPressed x | .skipReleased x => [registerOp x, keyOp (m.reg x)]
  | .pointGlyph x => [registerOp x, .add fontStart (BitVec.ofNat 16 (glyphSize * (m.reg x).low))]
  | .storeDecimal x => registerOp x :: Memory.writeOps m.registers.index 3
  | .storeRegisters x =>
    .range 0 (x.toNat + 1) registerCount :: Memory.writeOps m.registers.index (x.toNat + 1)
  | .loadRegisters x =>
    Memory.readOps m.registers.index (x.toNat + 1) ++
      match m.memory.slice m.registers.index (x.toNat + 1) with
      | .ok values => (List.range values.length).map fun k => registerOp (BitVec.ofNat 8 k)
      | .error _ => []

/-- An instruction is undefined just where an operation that it gets to is. -/
theorem allDefined_partialOps_iff {m : Machine} {i : Instruction} :
    AllDefined (m.partialOps i) ↔ m.refusal i ≠ some .undefined := by
  cases i with
  | ret =>
    refine iff_of_true m.stack.allDefined_popOps ?_
    simp only [refusal]
    split <;> simp
  | call a =>
    refine iff_of_true m.stack.allDefined_pushOps ?_
    simp only [refusal]
    split <;> simp
  | jumpOffset a =>
    have hv : ((m.reg 0).setWidth 16).toNat = (m.reg 0).toNat :=
      BitVec.toNat_setWidth_of_le (by decide)
    simp only [partialOps, allDefined_cons, allDefined_nil, defined_registerOp, defined_add, hv,
      true_and, and_true, refusal]
    split <;> simp_all
  | draw x y rows =>
    refine iff_of_true ?_ (Failure.map_fault_ne_undefined _)
    simp only [partialOps, allDefined_append, allDefined_cons, allDefined_nil, defined_registerOp,
      Memory.allDefined_readOps, and_self, true_and]
    split
    · simp [allDefined_paintOps]
    · exact allDefined_nil
  | pointGlyph x =>
    refine iff_of_true ?_ (Option.some_ne_none _).symm
    have hl := (m.reg x).low.isLt
    have hg : 5 * (m.reg x).low.val < 0x10000 := by omega
    simp only [partialOps, allDefined_cons, allDefined_nil, defined_registerOp, defined_add,
      true_and, and_true, fontStart, glyphSize, BitVec.reduceToNat, BitVec.toNat_ofNat,
      Nat.mod_eq_of_lt hg]
    omega
  | storeDecimal x =>
    refine iff_of_true ?_ (Failure.map_fault_ne_undefined _)
    simp [partialOps, Memory.allDefined_writeOps]
  | storeRegisters x =>
    have hw := Memory.allDefined_writeOps (Nat.succ_pos x.toNat) m.registers.index
    simp only [partialOps, allDefined_cons, defined_range, hw, Nat.zero_le, true_and, and_true,
      refusal]
    split
    · next hx => exact iff_of_true hx (Failure.map_fault_ne_undefined _)
    · next hx => exact iff_of_false hx (absurd rfl)
  | loadRegisters x =>
    refine iff_of_true ?_ (Failure.map_fault_ne_undefined _)
    simp only [partialOps, allDefined_append, Memory.allDefined_readOps, true_and]
    split
    · intro o ho
      obtain ⟨k, -, rfl⟩ := List.mem_map.mp ho
      exact defined_registerOp _
    · exact allDefined_nil
  | _ => exact iff_of_true (by simp [partialOps]) (Option.some_ne_none _).symm

end Machine

/-! ## Commands and runs -/

namespace Emulator

/-- The operations that fetching and decoding the next instruction get to. -/
def fetchOps (e : Emulator) : List PartialOp :=
  Memory.wordOps e.pc ++
    match e.peek with
    | .ok _ => Opcode.fieldOps
    | .error _ => []

/-- The operations that a command gets to. -/
def partialOps (e : Emulator) : Command → List PartialOp
  | .load rom =>
    if rom.length ≤ programCapacity then Memory.writeOps programStart rom.length else []
  | .tick =>
    match e.state with
    | .running =>
      e.fetchOps ++
        match e.peek with
        | .ok i => e.advanced.partialOps i
        | .error _ => []
    | _ => []
  | .setKey key down =>
    match down, e.state with
    | true, .awaitingKey r => if key.toNat < keyCount then [registerOp r] else []
    | _, _ => []
  | .reset => [.range fontStart.toNat (fontStart.toNat + font.length) memorySize]
  | .peek => e.fetchOps
  | .pixel x y => [pixelOp x y]
  | .tickTimers | .takeDrawFlag => []

/-- The operations that a run gets to, command by command. -/
def runOps (e : Emulator) : List Command → List PartialOp
  | [] => []
  | c :: cs => e.partialOps c ++ (e.perform c).emulator.runOps cs

theorem allDefined_fetchOps (e : Emulator) : AllDefined e.fetchOps := by
  simp only [fetchOps, allDefined_append, Memory.allDefined_wordOps, true_and]
  split
  · exact Opcode.allDefined_fieldOps 0
  · exact allDefined_nil

/-- A ROM that fits is written inside program memory, also if it is empty. -/
theorem allDefined_writeOps_programStart {n : Nat} (h : n ≤ programCapacity) :
    AllDefined (Memory.writeOps programStart n) := by
  rw [Memory.writeOps]
  split
  · exact allDefined_nil
  · simp only [allDefined_cons, allDefined_nil, and_true, defined_range]
    exact ⟨Nat.le_add_right _ _, Nat.add_le_add_left h 0x200⟩

/-- What decoding yields is inside its domain on every machine. -/
theorem allDefined_partialOps_of_peek {e : Emulator} {i : Instruction} (h : e.peek = .ok i)
    (m : Machine) : AllDefined (m.partialOps i) := by
  obtain ⟨op, -, hd⟩ := peek_eq_ok_iff.mp h
  exact Machine.allDefined_partialOps_iff.mpr (Machine.refusal_ne_undefined hd m)

/-- One command stays inside the domains of its operations. -/
theorem allDefined_partialOps (e : Emulator) (c : Command) : AllDefined (e.partialOps c) := by
  cases c with
  | load rom =>
    simp only [partialOps]
    split
    · next h => exact allDefined_writeOps_programStart h
    · exact allDefined_nil
  | tick =>
    simp only [partialOps]
    split
    · rw [allDefined_append]
      refine ⟨e.allDefined_fetchOps, ?_⟩
      split
      · next h => exact allDefined_partialOps_of_peek h _
      · exact allDefined_nil
    · exact allDefined_nil
  | setKey key down =>
    simp only [partialOps]
    split
    · split <;> simp
    · exact allDefined_nil
  | reset => simp [partialOps, length_font, memorySize, glyphSize]
  | peek => exact e.allDefined_fetchOps
  | pixel x y => simp [partialOps]
  | tickTimers | takeDrawFlag => exact allDefined_nil

/-- No command answers that it is undefined. -/
theorem perform_ne_undefined (e : Emulator) (c : Command) :
    (e.perform c).result ≠ .failed .undefined := by
  cases c with
  | load rom =>
    rcases Nat.lt_or_ge programCapacity rom.length with h | h
    · simp [perform, load_of_lt h, Response.map, Answer.ofResult]
    · simp [perform, load_of_le h, Response.map, Answer.ofResult]
  | tick =>
    simp only [perform, Response.map]
    cases hr : e.tick.result with
    | ok u => nofun
    | error f =>
      rcases tick_error_cases hr with ⟨g, -, rfl, -, -⟩ | ⟨-, rfl, -⟩
      · simp [Answer.ofResult]
      · simp [Answer.ofResult]
  | setKey key down =>
    rcases Nat.lt_or_ge key.toNat keyCount with h | h
    · simp only [perform, setKey_of_lt h]
      split <;> nofun
    · simp [perform, setKey_of_le h, Response.map, Answer.ofResult]
  | peek =>
    simp only [perform, Answer.ofInstruction]
    split <;> nofun
  | tickTimers | reset | takeDrawFlag | pixel => nofun

/-- Whatever ROMs are loaded and whatever happens, from any emulator, every operation
that the run gets to is inside its domain, and no command answers that it is
undefined. -/
theorem run_stays_defined (e : Emulator) (cs : List Command) :
    (∀ o ∈ e.runOps cs, o.Defined) ∧ ∀ a ∈ (e.run cs).result, a ≠ .failed .undefined := by
  induction cs generalizing e with
  | nil => exact ⟨nofun, nofun⟩
  | cons c cs ih =>
    obtain ⟨ho, ha⟩ := ih (e.perform c).emulator
    exact ⟨allDefined_append.mpr ⟨e.allDefined_partialOps c, ho⟩,
      List.forall_mem_cons.mpr ⟨e.perform_ne_undefined c, ha⟩⟩

end Emulator

end Chip8
