import ScriptEngine.Source.Span
import ScriptEngine.Tree.Basic

/-!
# Engine faults

A fault is an error of the engine, which no program can catch.  `Cause` says what went wrong,
`Cause.text` words it and `Cause.kind` names its family.  A `Fault` is a cause with the innermost
place that is known for it and one trace line for each call it has left.
-/

namespace ScriptEngine

/-- The longest string, in bytes, or array, in elements, that an operator may build. -/
def maxSequenceLength : Nat := 0x1000000

/-- Why an evaluation stopped. -/
inductive Cause
  | arity (expected : String) (got : Nat)
  /-- No constructor takes the number of arguments. -/
  | noConstructor (cls : String) (got : Nat)
  /-- No scope binds the name. -/
  | undefinedName (name : String)
  /-- An index outside a sequence. -/
  | index (index : Int64) (length : Nat)
  /-- A value of the wrong type. -/
  | type (message : String)
  | missingMember (typeName : String) (name : String)
  /-- A call of a value that is no function, method or class. -/
  | notCallable (typeName : String)
  /-- A sealed type that does not permit the new one. -/
  | sealedType (message : String)
  /-- A type parameter that is used against its variance. -/
  | variance (message : String)
  /-- A type argument outside the bound of its parameter. -/
  | bound (actual : String) (bound : String)
  /-- An assignment to what cannot be assigned again. -/
  | immutable (what : String) (name : String)
  /-- The use of a member from outside. -/
  | access (visibility : Visibility) (member : String) (cls : String)
  /-- An integer divided by zero. -/
  | divisionByZero
  | closedChannel
  | abstractClass (name : String)
  /-- A sequence beyond `maxSequenceLength`. -/
  | sizeLimit (what : String)
  /-- Calls nested deeper than the limit. -/
  | callDepth (limit : Nat)
  /-- A loop exit that leaves the body of a function. -/
  | outsideLoop (word : String)
  | other (message : String)
  deriving Repr, DecidableEq, Inhabited

def Visibility.word : Visibility → String
  | .visible => "public"
  | .hidden => "private"
  | .guarded => "protected"

namespace Cause

def text : Cause → String
  | arity e g => s!"Arity mismatch: expected {e}, got {g}"
  | noConstructor c g => s!"no constructor found for {c} with {g} arguments"
  | undefinedName n => s!"name '{n}' is not defined"
  | index i n => s!"index {i} out of range for length {n}"
  | type m => s!"Type error: {m}"
  | missingMember t n => s!"'{t}' object has no attribute '{n}'"
  | notCallable t => s!"'{t}' is not callable"
  | sealedType m => m
  | variance m => m
  | bound a b => s!"type {a} does not satisfy constraint: must extends {b}"
  | immutable k n => s!"cannot assign to {k} '{n}'"
  | access v m c => s!"cannot access {v.word} member '{m}' of {c}"
  | divisionByZero => "division by zero"
  | closedChannel => "send on closed channel"
  | abstractClass n => s!"cannot instantiate abstract class {n}"
  | sizeLimit w => s!"{w} exceeds the maximum length of {maxSequenceLength}"
  | callDepth n => s!"maximum recursion depth exceeded ({n})"
  | outsideLoop w => s!"'{w}' outside of a loop"
  | other m => s!"Runtime error: {m}"

/-- The family a cause belongs to. -/
def kind : Cause → String
  | arity .. | noConstructor .. => "ArityError"
  | undefinedName .. => "NameError"
  | index .. => "IndexError"
  | type .. | notCallable .. => "TypeError"
  | missingMember .. => "AttributeError"
  | sealedType .. => "SealedError"
  | variance .. => "VarianceError"
  | bound .. => "BoundError"
  | immutable .. => "ImmutableError"
  | access .. => "AccessError"
  | divisionByZero => "ZeroDivisionError"
  | closedChannel => "ChannelError"
  | abstractClass .. => "InstantiationError"
  | sizeLimit .. => "MemoryError"
  | callDepth .. => "RecursionError"
  | outsideLoop .. => "SyntaxError"
  | other .. => "RuntimeError"

/-- A value of one type where another is expected. -/
def mismatch (expected actual : String) : Cause := .type s!"expected {expected}, got {actual}"

/-- A single number of arguments that is not met. -/
def arityOf (expected got : Nat) : Cause := .arity (toString expected) got

end Cause

/-- A fault on its way out of an evaluation. -/
structure Fault where
  cause : Cause
  span : Option Span
  trace : List String
  deriving Repr, Inhabited

namespace Fault

/-- A fault that has left no statement and no call yet. -/
def ofCause (c : Cause) : Fault := ⟨c, none, []⟩

/-- Gives a fault a place unless it has one. -/
def locate (f : Fault) (s : Span) : Fault :=
  match f.span with
  | some _ => f
  | none => { f with span := some s }

/-- Notes that a fault left a call of a function made at a place. -/
def leave (f : Fault) (name : String) (site : Span) : Fault :=
  { f with trace := f.trace ++ [s!"at {name} ({site.text})"] }

/-- The text of a fault: its cause, its place and the calls it has left. -/
def text (f : Fault) : String :=
  f.cause.text ++ (f.span.elim "" fun s => " at " ++ s.text)
    ++ String.join (f.trace.map fun line => "\n    " ++ line)

end Fault
end ScriptEngine
