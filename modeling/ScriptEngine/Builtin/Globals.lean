import ScriptEngine.Builtin.Objects
import ScriptEngine.Grammar.Program

/-!
# Builtin functions

What the outermost scope of every program binds: functions, constructors of collections, channels
and futures, and the modules `Sys` and `Math`.

* `globalValues` lists the bindings, `Module.member?` the members of the modules.
* `callNative` calls a builtin function.
-/

namespace ScriptEngine

def MathFunction.apply (f : MathFunction) (x : Decimal.Double) : Decimal.Double :=
  x.map <|
    match f with
    | floor => Float.floor
    | ceil => Float.ceil
    | round => Float.round
    | sqrt => Float.sqrt
    | sin => Float.sin
    | cos => Float.cos
    | tan => Float.tan
    | log => Float.log
    | exp => Float.exp

/-- The members of the `Math` module that are functions of one number. -/
def MathFunction.all : List MathFunction := [floor, ceil, round, sqrt, sin, cos, tan, log, exp]

def circleConstant : Decimal.Double := ⟨0x400921fb54442d18⟩

def logarithmBase : Decimal.Double := ⟨0x4005bf0a8b145769⟩

def Module.member? : Module → String → Option Value
  | .sys, "type" => some (.native .sysType)
  | .sys, "instanceof" => some (.native .sysInstanceOf)
  | .sys, "sleep" => some (.native .sysSleep)
  | .sys, "time" => some (.native .sysTime)
  | .sys, "random" => some (.native .sysRandom)
  | .math, "PI" => some (.float circleConstant)
  | .math, "E" => some (.float logarithmBase)
  | .math, "abs" => some (.native .mathAbs)
  | .math, "pow" => some (.native .mathPow)
  | .math, "min" => some (.native .mathMin)
  | .math, "max" => some (.native .mathMax)
  | .math, "random" => some (.native .mathRandom)
  | .math, name =>
    (MathFunction.all.find? (·.name == name)).map fun f => .native (.mathUnary f)
  | _, _ => none

/-- The builtin functions that are bound in the outermost scope. -/
def globalFunctions : List Native :=
  [.print, .println, .str, .int, .float, .bool, .len, .range, .instanceOf, .collection .list,
   .collection .set, .collection .map, .collection .deque, .channel, .async, .promise, .completable]

/-- What the outermost scope binds. -/
def globalValues : List (String × Value) :=
  globalFunctions.map (fun f => (f.name, Value.native f)) ++
    [("Sys", .module .sys), ("Math", .module .math)]

namespace Builtin

/-- The arguments written one after another. -/
def writeArgs (E : Engine) (args : List Value) : Eval String := do
  pure (" ".intercalate (← args.mapM E.text))

/-- Adds to what the program has printed. -/
def printText (s : String) : Eval Unit := Eval.modify fun h => { h with output := h.output ++ s }

def toInt (h : Heap) (args : List Value) : Except Cause Value := do
  takesExactly args 1
  let v := argument args 0
  let n : Option Int64 :=
    match v with
    | .int i => some i
    | .float x => if x.isFinite then some x.toInt64 else none
    | .bool b => some (if b then 1 else 0)
    | .str s => readInt? s
    | _ => none
  match n with
  | some i => pure (.int i)
  | none => throw (.mismatch "Int-convertible value" (h.typeName v))

def toFloat (h : Heap) (args : List Value) : Except Cause Value := do
  takesExactly args 1
  let v := argument args 0
  let x : Option Decimal.Double :=
    match v with
    | .int i => some (.ofInt64 i)
    | .float x => some x
    | .bool b => some (.ofInt64 (if b then 1 else 0))
    | .str s => readNumber? s
    | _ => none
  match x with
  | some x => pure (.float x)
  | none => throw (.mismatch "Float-convertible value" (h.typeName v))

/-- The number of things in a value. -/
def lengthOf (h : Heap) (args : List Value) : Except Cause Value := do
  takesExactly args 1
  match length? h (argument args 0) with
  | some n => pure (count n)
  | none =>
    throw (.mismatch "String, Array, Map or collection" (h.typeName (argument args 0)))

/-- The number of steps from a start that stay before an end. -/
def stepCount (start stop step : Int) : Nat :=
  let span := if 0 < step then stop - start else start - stop
  (span.toNat + step.natAbs - 1) / step.natAbs

/-- The integers from a start, step by step, that come before an end. -/
def rangeItems (h : Heap) (args : List Value) : Except Cause (Array Value) := do
  takesBetween args 1 3
  let bounds : Int64 × Int64 ←
    match args with
    | [_] => (intAt h args 0 "range").map fun n => (0, n)
    | _ => do
      let start ← intAt h args 0 "range"
      let stop ← intAt h args 1 "range"
      pure (start, stop)
  let step ←
    match args[2]? with
    | some _ => intAt h args 2 "range"
    | none => pure 1
  if step = 0 then throw (.other "range() step must not be zero")
  let n := stepCount bounds.1.toInt bounds.2.toInt step.toInt
  if maxSequenceLength < n then
    throw (.sizeLimit s!"range({bounds.1}, {bounds.2}, {step})")
  pure (Eval.progression bounds.1.toInt step.toInt n)

/-- Whether a value is an instance of a type that is given as a text or as a definition. -/
def instanceOfArg (h : Heap) (args : List Value) : Except Cause Value := do
  takesExactly args 2
  let target ←
    match argument args 1 with
    | .str spec =>
      match TypeExpr.read spec with
      | .ok t => pure t
      | .error e => throw (.type s!"invalid type '{spec}': {e.text}")
    | .classDef c => pure (.simple c.name)
    | .interfaceDef i => pure (.simple i.name)
    | v => throw (.mismatch "type name or class" (h.typeName v))
  pure (.bool (h.instanceOf (argument args 0) target.canonical))

/-- Waits for some milliseconds. -/
def sleep (args : List Value) : Eval Value := do
  Eval.ofExcept (takesExactly args 1)
  let h ← Eval.heap
  let n ← Eval.ofExcept (intAt h args 0 "sleep")
  let wake := h.clock + n.toInt.toNat
  if wake = h.clock then Eval.yield
  Eval.await (.time wake) fun h => if wake ≤ h.clock then some (.nil, h) else none

/-- The milliseconds of the epoch at which programs begin. -/
def epoch : Nat := 1700000000000

/-- The time, in milliseconds or, when asked for a float, in seconds. -/
def currentTime (h : Heap) (args : List Value) : Except Cause Value := do
  takesBetween args 0 1
  let asFloat ←
    match args with
    | [] => pure false
    | _ => (stringAt h args 0 "Sys.time").map (· == "float")
  let now := epoch + h.clock
  pure (if asFloat then .float (.ofFloat (now.toFloat / 1000)) else count now)

/-- A number between zero and one. -/
def randomNumber (args : List Value) : Eval Value := do
  Eval.ofExcept (takesExactly args 0)
  let n ← Eval.change Heap.newNumber
  let bits := (mixHash 0x9e3779b97f4a7c15 (hash n) >>> 11).toNat
  pure (.float (.ofFloat (bits.toFloat / 9007199254740992)))

/-- The least or the greatest of several integers. -/
def extremeInt (pick : Int64 → Int64 → Int64) : List Value → Option Int64
  | [.int i] => some i
  | .int i :: rest => (extremeInt pick rest).map (pick i)
  | _ => none

/-- Goes through further numbers and keeps the one that is better than those before it. -/
def extremeFloat (h : Heap) (better : Decimal.Double → Decimal.Double → Bool) (what : String)
    (args : List Value) : List Nat → Decimal.Double → Except Cause Decimal.Double
  | [], best => pure best
  | i :: rest, best => do
    let x ← floatAt h args i what
    extremeFloat h better what args rest (if better x best then x else best)

/-- The least or the greatest of several numbers; among integers alone it is one. -/
def extreme (h : Heap) (greatest : Bool) (args : List Value) : Except Cause Value := do
  if args.isEmpty then throw (.arity "1.." 0)
  let what := if greatest then "max" else "min"
  match extremeInt (fun a b => if greatest then max a b else min a b) args with
  | some i => pure (.int i)
  | none => do
    let first ← floatAt h args 0 what
    let better (x best : Decimal.Double) : Bool :=
      if greatest then best.less x else x.less best
    let best ← extremeFloat h better what args (List.range' 1 (args.length - 1)) first
    pure (.float best)

def absolute (h : Heap) (args : List Value) : Except Cause Value := do
  takesExactly args 1
  match args with
  | [.int i] => pure (.int (absInt i))
  | _ => do pure (.float (← floatAt h args 0 "abs").abs)

/-- A power of a number as a float. -/
def power (h : Heap) (args : List Value) : Except Cause Value := do
  takesExactly args 2
  let base ← floatAt h args 0 "pow"
  let exponent ← floatAt h args 1 "pow"
  pure (.float (base.pow exponent))

def applyMath (h : Heap) (f : MathFunction) (args : List Value) : Except Cause Value := do
  takesExactly args 1
  pure (.float (f.apply (← floatAt h args 0 f.name)))

/-- Calls a builtin function that only looks at its arguments. -/
def pureNative (h : Heap) (f : Native) (args : List Value) : Option (Except Cause Value) :=
  match f with
  | .int => some (toInt h args)
  | .float => some (toFloat h args)
  | .bool => some do
    takesExactly args 1
    pure (.bool (argument args 0).isTruthy)
  | .len => some (lengthOf h args)
  | .instanceOf | .sysInstanceOf => some (instanceOfArg h args)
  | .sysType => some do
    takesExactly args 1
    pure (.str (h.typeName (argument args 0)))
  | .sysTime => some (currentTime h args)
  | .mathUnary f => some (applyMath h f args)
  | .mathAbs => some (absolute h args)
  | .mathPow => some (power h args)
  | .mathMin => some (extreme h false args)
  | .mathMax => some (extreme h true args)
  | _ => none

/-- Calls a builtin function. -/
def callNative (E : Engine) (f : Native) (args : List Value) (typeArgs : List TypeExpr) :
    Eval Value := do
  match f with
  | .print => do
    printText (← writeArgs E args)
    pure .nil
  | .println => do
    let s ← writeArgs E args
    printText (s.push '\n')
    pure .nil
  | .str => do
    Eval.ofExcept (takesExactly args 1)
    pure (.str (← E.text (argument args 0)))
  | .range => do
    let items ← Eval.ofExcept (rangeItems (← Eval.heap) args)
    Eval.change fun h => h.newArray items
  | .collection kind => makeCollection kind typeArgs args
  | .channel => makeChannel typeArgs args
  | .async => startAsync args
  | .promise => makePromise E args
  | .completable => makeCompletable args
  | .resolve id => do pure (.bool (← settleFuture id (.fulfilled (argument args 0))))
  | .reject id => do pure (.bool (← settleFuture id (.rejected ⟨argument args 0, none⟩)))
  | .sysSleep => sleep args
  | .sysRandom | .mathRandom => randomNumber args
  | f =>
    match pureNative (← Eval.heap) f args with
    | some r => Eval.ofExcept r
    | none => pure .nil

end Builtin
end ScriptEngine
