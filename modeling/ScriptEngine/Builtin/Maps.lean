import ScriptEngine.Builtin.Basic

/-!
# Methods of maps

Map literals and `Map` collections share the methods that change nothing.
-/

namespace ScriptEngine
namespace Builtin

/-- What a method that reads a map answers: a value, or the rows of a new array. -/
inductive MapAnswer
  | value (v : Value)
  | items (vs : List Value)
  | pairs (es : List (Value × Value))

/-- The answer of a method that reads a map. -/
def queryMap (h : Heap) (m : KeyedMap) (name : String) (args : List Value) :
    Except Cause (Option MapAnswer) :=
  match name with
  | "get" => do
    takesBetween args 1 2
    pure (some (.value ((m.get? (h.key (argument args 0))).getD (argument args 1))))
  | "has" | "hasKey" | "containsKey" => do
    takesExactly args 1
    pure (some (.value (.bool (m.contains (h.key (argument args 0))))))
  | "keys" => pure (some (.items m.keys))
  | "values" => pure (some (.items m.values))
  | "entries" => pure (some (.pairs m.entries.toList))
  | "size" | "length" => pure (some (.value (count m.size)))
  | "isEmpty" => pure (some (.value (.bool (m.size == 0))))
  | _ => pure none

def MapAnswer.toValue : MapAnswer → Eval Value
  | .value v => pure v
  | .items vs => Eval.makeArray vs
  | .pairs es => do
    let rows ← es.mapM fun e => Eval.makeArray [e.1, e.2]
    Eval.makeArray rows

/-- Calls a callback with the key and the value of each entry. -/
def visitEntries (E : Engine) (args : List Value) (entries : List (Value × Value)) :
    Eval Unit := do
  let f ← Eval.ofExcept (firstCallback (← Eval.heap) args "forEach")
  entries.forM fun e => do let _ ← Eval.callback E f [e.1, e.2]

/-- Takes a key out of a map. -/
def eraseFromMap (id : Nat) (key : Value) : Eval Value :=
  Eval.change fun h =>
    let k := h.key key
    let found := (h.map id).get? k
    (found.getD .nil, h.modifyMap id fun m => (m.erase k).2)

/-- Calls a method of a map literal. -/
def callMap (E : Engine) (id : Nat) (name : String) (args : List Value) : Eval Value := do
  match name with
  | "set" | "put" => do
    Eval.ofExcept (takesExactly args 2)
    Eval.modify fun h =>
      let k := h.key (argument args 0)
      h.insertInMap id k (argument args 0) (argument args 1)
    pure .nil
  | "remove" | "delete" => do
    Eval.ofExcept (takesExactly args 1)
    eraseFromMap id (argument args 0)
  | "clear" => do
    Eval.modify fun h => h.modifyMap id fun _ => .empty
    pure .nil
  | "forEach" => do
    visitEntries E args ((← Eval.heap).map id).entries.toList
    pure .nil
  | "toString" => do pure (.str (← E.text (.map id)))
  | _ => do
    let h ← Eval.heap
    match ← Eval.ofExcept (queryMap h (h.map id) name args) with
    | some a => a.toValue
    | none => Eval.fault (.missingMember "Map" name)

end Builtin
end ScriptEngine
