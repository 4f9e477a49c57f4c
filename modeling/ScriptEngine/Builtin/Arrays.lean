import ScriptEngine.Builtin.Basic

/-!
# Methods of arrays

Callbacks see the array as it was when the method was called; they may change it meanwhile.

* `sortItems` is a stable merge sort; the comparison may be a callback and may fail.
-/

namespace ScriptEngine
namespace Builtin

/-- The order that the result of a comparison callback stands for. -/
def orderFrom (h : Heap) (v : Value) : Except Cause Ordering :=
  match v with
  | .int i => .ok (compare i 0)
  | .float x => .ok ((x.order (.ofInt64 0)).getD .eq)
  | v => .error (.mismatch "Int from comparator" (h.typeName v))

/-- The order of two elements; values without an order count as equal. -/
def compareItems (E : Engine) (comparator : Option Value) (a b : Value) : Eval Ordering := do
  match comparator with
  | some f => do
    let v ← Eval.callback E f [a, b]
    Eval.ofExcept (orderFrom (← Eval.heap) v)
  | none => do
    let o ← Eval.ofExcept (Eval.compareValues (← Eval.heap) a b)
    pure (o.getD .eq)

/-- Merges two sorted lists after what is already merged, the last element first; of equal elements
the one on the left comes first. -/
def mergeItems (order : Value → Value → Eval Ordering) (merged : List Value) :
    List Value → List Value → Eval (List Value)
  | [], right => pure (merged.reverse ++ right)
  | left, [] => pure (merged.reverse ++ left)
  | a :: left, b :: right => do
    if (← order a b) == .gt then mergeItems order (b :: merged) (a :: left) right
    else mergeItems order (a :: merged) left (b :: right)
  termination_by left right => left.length + right.length

def sortItems (order : Value → Value → Eval Ordering) (items : List Value) : Eval (List Value) :=
  if items.length ≤ 1 then pure items
  else do
    let left ← sortItems order (items.take (items.length / 2))
    let right ← sortItems order (items.drop (items.length / 2))
    mergeItems order [] left right
  termination_by items.length
  decreasing_by
    · simp only [List.length_take]; omega
    · simp only [List.length_drop]; omega

/-- The place that a bound of a slice stands for: negative ones count from the end. -/
def sliceBound (i : Int64) (length : Nat) : Nat :=
  if i.toInt < 0 then (Int.ofNat length + i.toInt).toNat else min i.toInt.toNat length

/-- The elements between two places. -/
def sliceItems (h : Heap) (items : Array Value) (args : List Value) :
    Except Cause (Array Value) := do
  takesBetween args 1 2
  let start := sliceBound (← intAt h args 0 "slice") items.size
  let stop ←
    match args[1]? with
    | some _ => (intAt h args 1 "slice").map fun n => sliceBound n items.size
    | none => pure items.size
  pure (items.extract start stop)

/-- The elements of an array and, after them, those of the arrays among some values and the other
values. -/
def concatItems (h : Heap) (items : Array Value) (args : List Value) : Array Value :=
  args.foldl (fun out v =>
    match v with
    | .array id => out ++ h.array id
    | v => out.push v) items

/-- The place for a new element: any up to the end. -/
def insertionPlace (h : Heap) (args : List Value) (length : Nat) : Except Cause Nat := do
  let i ← intAt h args 0 "insert"
  if 0 ≤ i.toInt ∧ i.toInt ≤ length then pure i.toInt.toNat else throw (.index i length)

/-- The result of a method that changes nothing and calls nothing. -/
def queryArray (h : Heap) (id : Nat) (name : String) (args : List Value) :
    Except Cause (Option Value) :=
  let items := h.array id
  match name with
  | "length" | "size" => pure (some (count items.size))
  | "isEmpty" => pure (some (.bool items.isEmpty))
  | "get" => do
    takesExactly args 1
    let i ← Eval.indexOf h (argument args 0) items.size
    pure (some (items.getD i .nil))
  | "contains" => pure (some (.bool (position? h items.toList (argument args 0)).isSome))
  | "indexOf" => pure (some (place (position? h items.toList (argument args 0))))
  | _ => pure none

/-- The elements of the array that a method makes without changing the one it is called on. -/
def deriveArray (h : Heap) (id : Nat) (name : String) (args : List Value) :
    Except Cause (Option (Array Value)) :=
  let items := h.array id
  match name with
  | "slice" => (sliceItems h items args).map some
  | "concat" => pure (some (concatItems h items args))
  | "reverse" => pure (some items.reverse)
  | _ => pure none

/-- Puts some values in front of others. -/
def prepend (xs : List Value) (items : Array Value) : Array Value := xs.toArray ++ items

/-- The result of a method that changes an array, with the change. -/
def updateArray (h : Heap) (id : Nat) (name : String) (args : List Value) :
    Except Cause (Option (Value × (Array Value → Array Value))) :=
  let size := (h.array id).size
  let element (i : Nat) : Value := (h.array id).getD i .nil
  match name with
  | "set" => do
    takesExactly args 2
    let i ← Eval.indexOf h (argument args 0) size
    pure (some (.nil, (·.setIfInBounds i (argument args 1))))
  | "push" | "add" => pure (some (.nil, (· ++ args)))
  | "pop" => pure (some (element (size - 1), (·.pop)))
  | "shift" => pure (some (element 0, (·.eraseIdxIfInBounds 0)))
  | "unshift" => pure (some (.nil, prepend args))
  | "insert" => do
    takesExactly args 2
    let i ← insertionPlace h args size
    pure (some (.nil, (·.insertIdxIfInBounds i (argument args 1))))
  | "removeAt" => do
    takesExactly args 1
    let i ← Eval.indexOf h (argument args 0) size
    pure (some (element i, (·.eraseIdxIfInBounds i)))
  | "clear" => pure (some (.nil, fun _ => #[]))
  | _ => pure none

/-- The text between the elements that `join` writes. -/
def separatorText (E : Engine) (args : List Value) : Eval String :=
  match args with
  | [] => pure ","
  | .str s :: _ => pure s
  | v :: _ => E.text v

/-- Calls a method that calls back or writes elements. -/
def traverseArray (E : Engine) (id : Nat) (name : String) (args : List Value) : Eval Value := do
  let h ← Eval.heap
  let items := (h.array id).toList
  let callee (name : String) : Eval Value := Eval.ofExcept (firstCallback h args name)
  match name with
  | "join" => do
    let separator ← separatorText E args
    let items := ((← Eval.heap).array id).toList
    let parts ← items.mapM E.text
    pure (.str (separator.intercalate parts))
  | "sort" => do
    let sorted ← sortItems (compareItems E args.head?) items
    Eval.modify (·.modifyArray id fun _ => sorted.toArray)
    pure .nil
  | "map" => do
    let f ← callee name
    Eval.makeArray (← mapItems E f items)
  | "filter" => do
    let f ← callee name
    Eval.makeArray (← filterItems E f items)
  | "reduce" => do
    Eval.ofExcept (takesBetween args 1 2)
    let f ← callee name
    let step (acc item : Value) : Eval Value := Eval.callback E f [acc, item]
    match args[1]? with
    | some initial => items.foldlM step initial
    | none => items.tail.foldlM step (items.headD .nil)
  | "forEach" => do
    let f ← callee name
    visitItems E f items
    pure .nil
  | "find" => do
    let f ← callee name
    pure (((← findItem E f true items).map (·.1)).getD .nil)
  | "findIndex" => do
    let f ← callee name
    pure (place ((← findItem E f true items).map (·.2)))
  | "some" => do
    let f ← callee name
    pure (.bool (← findItem E f true items).isSome)
  | "every" => do
    let f ← callee name
    pure (.bool (← findItem E f false items).isNone)
  | "toString" => do pure (.str (← E.text (.array id)))
  | _ => Eval.fault (.missingMember "Array" name)

def callArray (E : Engine) (id : Nat) (name : String) (args : List Value) : Eval Value := do
  match ← Eval.ofExcept (queryArray (← Eval.heap) id name args) with
  | some v => pure v
  | none =>
    match ← Eval.ofExcept (updateArray (← Eval.heap) id name args) with
    | some (v, change) => do
      Eval.modify (·.modifyArray id change)
      pure v
    | none =>
      match ← Eval.ofExcept (deriveArray (← Eval.heap) id name args) with
      | some items => Eval.change fun h => h.newArray items
      | none => traverseArray E id name args

end Builtin
end ScriptEngine
