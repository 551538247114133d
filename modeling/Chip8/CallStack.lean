import Chip8.Fault

/-!
# The call stack

Sixteen slots hold the return addresses of the calls in progress, the oldest
first. A slot that is given up is cleared, so stacks with the same return
addresses are equal.

* `toList_push`, `toList_pop`: through `toList`, the stack is a list that grows
  and shrinks at its head.
-/

namespace Chip8

/-- The number of return addresses that fit. -/
abbrev stackCapacity : Nat := 16

/-- The return addresses of the calls in progress. -/
@[ext] structure CallStack where
  /-- The slots, in the order in which they are filled. -/
  slots : Vector Word stackCapacity
  /-- The number of slots in use. -/
  depth : Nat
  /-- No more slots are in use than there are. -/
  depth_le : depth ≤ stackCapacity
deriving DecidableEq

namespace CallStack

/-- The stack without calls. -/
def empty : CallStack := ⟨Vector.replicate stackCapacity 0, 0, by decide⟩

instance : EmptyCollection CallStack := ⟨empty⟩

instance : Inhabited CallStack := ⟨empty⟩

/-- The return addresses, the latest first. -/
def toList (s : CallStack) : List Word := (s.slots.toList.take s.depth).reverse

/-- Whether every slot is in use. -/
def isFull (s : CallStack) : Bool := s.depth == stackCapacity

/-- Adds a return address. -/
def push (a : Word) : Action CallStack Unit := fun s =>
  if h : s.depth < stackCapacity then .ok () ⟨s.slots.set s.depth a, s.depth + 1, h⟩
  else .error (.fault .stackOverflow) s

/-- Removes the latest return address and clears its slot. -/
def pop : Action CallStack Word := fun s =>
  have := s.depth_le
  if h : 0 < s.depth then
    .ok (s.slots[s.depth - 1]) ⟨s.slots.set (s.depth - 1) 0, s.depth - 1, by omega⟩
  else .error (.fault .stackUnderflow) s

/-! ## The view as a list -/

@[simp] theorem length_toList (s : CallStack) : s.toList.length = s.depth := by
  have := s.depth_le
  simp [toList]
  omega

theorem toList_push {s t : CallStack} {a : Word} (h : push a s = .ok () t) :
    t.toList = a :: s.toList := by
  simp only [push] at h
  split at h
  · next hd =>
    cases h
    simp only [toList, Vector.toList_set]
    rw [List.take_succ_eq_append_getElem (by simpa using hd), List.reverse_append,
      List.take_set_of_le (Nat.le_refl _)]
    simp
  · cases h

theorem toList_pop {s t : CallStack} {a : Word} (h : pop s = .ok a t) :
    s.toList = a :: t.toList := by
  simp only [pop] at h
  split at h
  · next hd =>
    have hs := s.depth_le
    cases h
    simp only [toList, Vector.toList_set]
    rw [List.take_set_of_le (Nat.le_refl _)]
    have hl : s.depth - 1 < s.slots.toList.length := by simp; omega
    have := List.take_succ_eq_append_getElem hl
    rw [show s.depth - 1 + 1 = s.depth by omega] at this
    rw [this]
    simp
  · cases h

end CallStack

end Chip8
