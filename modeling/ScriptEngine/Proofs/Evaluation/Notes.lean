import ScriptEngine.Typing.Conform

/-!
# What a note tells

A note tells an event and the memory of its moment.  **What has been noted before does not matter to
what values are**: tests of types give the same in that memory alone.
-/

namespace ScriptEngine

/-- A heap with a memory, of which nothing has been noted. -/
def Memory.heap (m : Memory) : Heap := ⟨m, .start⟩

namespace Heap

variable (h : Heap)

theorem runtimeTypeWithin_memory
    (depth : Nat) :
    h.toMemory.heap.runtimeTypeWithin depth = h.runtimeTypeWithin depth := by
  induction depth with
  | zero =>
      rfl
  | succ depth ih =>
      funext v
      unfold runtimeTypeWithin
      rw [ih]
      rfl

theorem runtimeType_memory :
    h.toMemory.heap.runtimeType = h.runtimeType := by
  funext v
  exact congrFun (runtimeTypeWithin_memory h _) v

mutual

theorem instanceOf_memory
    (v : Value) (type : TypeExpr) :
    h.toMemory.heap.instanceOf v type = h.instanceOf v type := by
  cases type with
  | named name args =>
      rw [instanceOf, instanceOf]
      simp only [slotsMatch_memory]
      rfl
  | union ms =>
      rw [instanceOf, instanceOf]
      exact instanceOfAny_memory v ms
  | wildcard =>
      rw [instanceOf, instanceOf]
  | boundedAbove b =>
      rw [instanceOf, instanceOf]
      exact instanceOf_memory v b
  | boundedBelow b =>
      rw [instanceOf, instanceOf, runtimeType_memory]
      rfl

theorem instanceOfAny_memory
    (v : Value) (types : List TypeExpr) :
    h.toMemory.heap.instanceOfAny v types = h.instanceOfAny v types := by
  cases types with
  | nil =>
      rw [instanceOfAny, instanceOfAny]
  | cons m ms =>
      rw [instanceOfAny, instanceOfAny, instanceOf_memory v m, instanceOfAny_memory v ms]

theorem slotsMatch_memory
    (slots : List (List Value)) (types : List TypeExpr) :
    h.toMemory.heap.slotsMatch slots types = h.slotsMatch slots types := by
  cases types with
  | nil =>
      rw [slotsMatch, slotsMatch]
  | cons t ts =>
      cases slots with
      | nil =>
          rw [slotsMatch, slotsMatch]
      | cons s rest =>
          rw [slotsMatch, slotsMatch, slotsMatch_memory rest ts]
          simp only [instanceOf_memory]

end

end Heap
end ScriptEngine
