import Chip8.CallStack

/-!
# The call stack as a list

A push or a pop either fails, on a full or an empty stack, or is a total function of the stack
(`CallStack.enter`, `CallStack.leave`). Through `toList` these two work on the head of a list.
Slots that are not in use are not part of the list, but of the stack; that they are always cleared
makes the list all there is to a stack.

* `eq_of_toList_eq`: stacks with cleared slots that have the same list are equal.
* `toList_perform`, `Cleared.perform`: what operations do to the list, and that they clear slots.
* `stack_is_bounded_list`: so, after whatever operations, a stack is a list of up to sixteen
  addresses.
-/

namespace Chip8.CallStack

/-! ## Pushing and popping as total functions -/

/-- The stack inside a call that returns to `a`; a full stack stays as it is. -/
def enter (s : CallStack) (a : Word) : CallStack :=
  if h : s.depth < stackCapacity then ⟨s.slots.set s.depth a, s.depth + 1, h⟩ else s

theorem depth_sub_one_lt (s : CallStack) : s.depth - 1 < stackCapacity := by
  have hd := s.depth_le
  have hc : stackCapacity = 16 := rfl
  omega

theorem depth_sub_one_le (s : CallStack) : s.depth - 1 ≤ stackCapacity :=
  Nat.le_of_lt s.depth_sub_one_lt

/-- The stack after the latest call; the empty stack stays as it is. -/
def leave (s : CallStack) : CallStack :=
  if 0 < s.depth then
    ⟨s.slots.set (s.depth - 1) 0 s.depth_sub_one_lt, s.depth - 1, s.depth_sub_one_le⟩
  else s

/-- The address that the latest call returns to, 0 if there is none. -/
def top (s : CallStack) : Word :=
  if 0 < s.depth then s.slots.get ⟨s.depth - 1, s.depth_sub_one_lt⟩ else 0

theorem push_eq (a : Word) (s : CallStack) :
    push a s =
      if s.depth < stackCapacity then .ok () (s.enter a) else .error (.fault .stackOverflow) s := by
  simp only [push, enter]
  split <;> rfl

theorem pop_eq (s : CallStack) :
    pop s = if 0 < s.depth then .ok s.top s.leave else .error (.fault .stackUnderflow) s := by
  simp only [pop, top, leave]
  split <;> rfl

variable {s t : CallStack} {a : Word}

theorem toList_enter (h : s.depth < stackCapacity) (a : Word) :
    (s.enter a).toList = a :: s.toList :=
  toList_push (by rw [push_eq, if_pos h])

theorem toList_leave (h : 0 < s.depth) : s.toList = s.top :: s.leave.toList :=
  toList_pop (by rw [pop_eq, if_pos h])

theorem enter_of_full (h : ¬ s.depth < stackCapacity) (a : Word) : s.enter a = s := dif_neg h

theorem leave_of_empty (h : ¬ 0 < s.depth) : s.leave = s := if_neg h

/-! ## Cleared slots -/

/-- Every slot that is not in use is cleared. -/
def Cleared (s : CallStack) : Prop := ∀ i (h : i < stackCapacity), s.depth ≤ i → s.slots[i] = 0

theorem cleared_empty : (∅ : CallStack).Cleared := fun _ h _ => Vector.getElem_replicate h

theorem Cleared.enter (hs : s.Cleared) (a : Word) : (s.enter a).Cleared := by
  rw [CallStack.enter]
  split
  · intro i hi hd
    simp only [Vector.getElem_set] at hd ⊢
    rw [if_neg (by omega)]
    exact hs i hi (by omega)
  · exact hs

theorem Cleared.leave (hs : s.Cleared) : s.leave.Cleared := by
  rw [CallStack.leave]
  split
  · intro i hi hd
    simp only [Vector.getElem_set] at hd ⊢
    split
    · rfl
    · exact hs i hi (by omega)
  · exact hs

theorem eq_of_toList_eq (hs : s.Cleared) (ht : t.Cleared) (h : s.toList = t.toList) : s = t := by
  have hd : s.depth = t.depth := by rw [← length_toList, h, length_toList]
  have hl : s.slots.toList.take s.depth = t.slots.toList.take t.depth := List.reverse_inj.mp h
  refine CallStack.ext (Vector.ext fun i hi => ?_) hd
  rcases Nat.lt_or_ge i s.depth with hlt | hge
  · have hi' : i < (s.slots.toList.take s.depth).length := by
      rw [List.length_take, Vector.length_toList]
      omega
    have := List.getElem_of_eq hl hi'
    simpa only [List.getElem_take, Vector.getElem_toList] using this
  · rw [hs i hi hge, ht i hi (hd ▸ hge)]

/-! ## Operations in turn -/

/-- An operation of the call stack. -/
inductive Operation where
  /-- Adds a return address. -/
  | push (a : Word)
  /-- Removes the latest return address. -/
  | pop
  /-- Empties the stack. -/
  | reset

/-- The stack after an operation, which may fail. -/
def perform (s : CallStack) : Operation → CallStack
  | .push a =>
    match push a s with
    | .ok _ t | .error _ t => t
  | .pop =>
    match pop s with
    | .ok _ t | .error _ t => t
  | .reset => ∅

/-- What an operation does to a list of at most sixteen addresses, the latest first. -/
def Operation.onList (l : List Word) : Operation → List Word
  | .push a => if l.length < stackCapacity then a :: l else l
  | .pop => l.tail
  | .reset => []

theorem perform_push (s : CallStack) (a : Word) : s.perform (.push a) = s.enter a := by
  rw [perform, push_eq]
  by_cases h : s.depth < stackCapacity
  · simp only [h, ↓reduceIte]
  · simp only [h, ↓reduceIte, enter_of_full, not_false_eq_true]

theorem perform_pop (s : CallStack) : s.perform .pop = s.leave := by
  rw [perform, pop_eq]
  by_cases h : 0 < s.depth
  · simp only [h, ↓reduceIte]
  · simp only [h, ↓reduceIte, leave_of_empty, not_false_eq_true]

theorem toList_eq_nil (h : ¬ 0 < s.depth) : s.toList = [] := by
  rw [← List.length_eq_zero_iff, length_toList]
  exact Nat.eq_zero_of_not_pos h

theorem toList_perform (s : CallStack) (o : Operation) :
    (s.perform o).toList = o.onList s.toList := by
  cases o with
  | push a =>
    rw [perform_push, Operation.onList, length_toList]
    split
    · next h => exact toList_enter h a
    · next h => rw [enter_of_full h]
  | pop =>
    rw [perform_pop, Operation.onList]
    by_cases h : 0 < s.depth
    · rw [toList_leave h, List.tail_cons]
    · rw [leave_of_empty h, toList_eq_nil h, List.tail_nil]
  | reset => rfl

theorem Cleared.perform (hs : s.Cleared) (o : Operation) : (s.perform o).Cleared := by
  cases o with
  | push a =>
    rw [perform_push]
    exact hs.enter a
  | pop =>
    rw [perform_pop]
    exact hs.leave
  | reset => exact cleared_empty

/-- The stack after operations on an empty one. -/
def performed (os : List Operation) : CallStack := os.foldl perform ∅

/-- The list after operations on an empty one. -/
def listed (os : List Operation) : List Word := os.foldl Operation.onList []

theorem toList_foldl_perform (os : List Operation) (s : CallStack) :
    (os.foldl perform s).toList = os.foldl Operation.onList s.toList := by
  induction os generalizing s with
  | nil => rfl
  | cons o os ih => rw [List.foldl_cons, List.foldl_cons, ih, toList_perform]

theorem toList_performed (os : List Operation) : (performed os).toList = listed os :=
  toList_foldl_perform os ∅

theorem cleared_performed (os : List Operation) : (performed os).Cleared :=
  List.foldlRecOn os perform cleared_empty fun _ hs o _ => hs.perform o

/-- The stack is a list of at most sixteen addresses, the latest first. Pushing adds to the list
and popping takes from it, unless it is full or empty; then they fail, and the stack stays as it
is. -/
structure Represents (s : CallStack) (l : List Word) : Prop where
  toList_eq : s.toList = l
  length_le : l.length ≤ 16
  depth_eq : s.depth = l.length
  isFull_iff : s.isFull = true ↔ l.length = 16
  push_of_lt : ∀ a, l.length < 16 → ∃ t, push a s = .ok () t ∧ t.toList = a :: l
  push_of_full : ∀ a, l.length = 16 → push a s = .error (.fault .stackOverflow) s
  pop_of_cons : ∀ a rest, l = a :: rest → ∃ t, pop s = .ok a t ∧ t.toList = rest
  pop_of_nil : l = [] → pop s = .error (.fault .stackUnderflow) s

theorem represents_toList (s : CallStack) : s.Represents s.toList where
  toList_eq := rfl
  length_le := by
    rw [length_toList]
    exact s.depth_le
  depth_eq := s.length_toList.symm
  isFull_iff := by rw [length_toList, isFull, beq_iff_eq]
  push_of_lt a h := by
    rw [length_toList] at h
    exact ⟨s.enter a, by rw [push_eq, if_pos h], toList_enter h a⟩
  push_of_full a h := by
    rw [length_toList] at h
    rw [push_eq, if_neg (by rw [h]; exact Nat.lt_irrefl 16)]
  pop_of_cons a rest h := by
    have hd : 0 < s.depth := by
      rw [← length_toList, h]
      exact Nat.succ_pos _
    rw [toList_leave hd, List.cons_eq_cons] at h
    exact ⟨s.leave, by rw [pop_eq, if_pos hd, h.1], h.2⟩
  pop_of_nil h := by
    rw [pop_eq, if_neg (by rw [← length_toList, h]; exact Nat.lt_irrefl 0)]

/-- After whatever operations, failed ones included, the stack behaves as the list that they make.
Two such stacks are equal just if the lists are, whatever else was pushed and popped on the way. -/
theorem stack_is_bounded_list (os os' : List Operation) :
    (performed os).Represents (listed os) ∧
    (performed os = performed os' ↔ listed os = listed os') := by
  rw [← toList_performed os, ← toList_performed os']
  refine ⟨represents_toList _, fun h => congrArg toList h, fun h => ?_⟩
  exact eq_of_toList_eq (cleared_performed os) (cleared_performed os') h

end Chip8.CallStack
