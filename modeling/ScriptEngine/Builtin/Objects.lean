import ScriptEngine.Builtin.Collections
import ScriptEngine.Builtin.Concurrent
import ScriptEngine.Builtin.Numbers
import ScriptEngine.Builtin.Texts

/-!
# Methods of instances and classes, and the choice of the method to call
-/

namespace ScriptEngine
namespace Builtin

/-- A number that equal keys share. -/
def hashCode (k : KeyImage) : Int64 := (hash k).toInt64

/-- Calls a method that every instance has. -/
def callInstance (h : Heap) (o : Instance) (name : String) (args : List Value) :
    Except Cause Value :=
  match name, o.constant with
  | "toString", _ => pure (.str (h.display (.object o)))
  | "equals", _ => do
    takesExactly args 1
    pure (.bool (h.equals (.object o) (argument args 0)))
  | "hashCode", _ => pure (.int (hashCode (h.key (.object o))))
  | "getClass", _ => pure (.classDef o.cls)
  | "name", some (n, _) => pure (.str n)
  | "ordinal", some (_, i) => pure (count i)
  | _, _ => throw (.missingMember o.cls.name name)

def isConstant (name : String) : Value → Bool
  | .object o => o.constant.any (·.1 == name)
  | _ => false

def constantNamed (h : Heap) (c : ClassDef) (args : List Value) : Except Cause Value := do
  takesExactly args 1
  let wanted ← stringAt h args 0 "valueOf"
  match (h.staticsOf c.id).constants.find? (isConstant wanted) with
  | some v => pure v
  | none => throw (.other s!"no enum constant {c.name}.{wanted}")

/-- Calls a method that every class has. -/
def callClass (c : ClassDef) (name : String) (args : List Value) : Eval Value := do
  let h ← Eval.heap
  match name, c.kind with
  | "values", .enumeration => Eval.makeArray (h.staticsOf c.id).constants
  | "valueOf", .enumeration => Eval.ofExcept (constantNamed h c args)
  | "name", _ => pure (.str c.name)
  | "toString", _ => pure (.str (h.display (.classDef c)))
  | _, _ => Eval.fault (.missingMember c.name name)

/-- Calls a method of nil or of a truth value. -/
def callScalar (h : Heap) (v : Value) (name : String) (args : List Value) : Except Cause Value :=
  match name with
  | "toString" => pure (.str (h.display v))
  | "equals" => pure (.bool (h.equals v (argument args 0)))
  | _ => throw (unknownMethod h v name)

def callMethod (E : Engine) (receiver : Value) (name : String) (args : List Value) :
    Eval Value := do
  match receiver with
  | .str s => callString s name args
  | .int i => do Eval.ofExcept (intMethod (← Eval.heap) i name args)
  | .float x => do Eval.ofExcept (floatMethod (← Eval.heap) x name args)
  | .array id => callArray E id name args
  | .map id => callMap E id name args
  | .collection c => callCollection E c name args
  | .channel id element => callChannel id element name args
  | .future id kind => callFuture E id kind name args
  | .object o => do Eval.ofExcept (callInstance (← Eval.heap) o name args)
  | .classDef c => callClass c name args
  | .thread id => callThread id name
  | v@.nil | v@(.bool _) => do Eval.ofExcept (callScalar (← Eval.heap) v name args)
  | v => do Eval.fault (unknownMethod (← Eval.heap) v name)

end Builtin
end ScriptEngine
