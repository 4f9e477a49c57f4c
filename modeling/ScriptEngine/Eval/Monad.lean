import ScriptEngine.Typing.Conform

/-!
# Evaluations

An `Eval α` is a computation of a program thread on the heap.  It ends with a value or raises a
signal, which is a thrown value or a fault; or it stops where it has to wait for something another
thread does.  What waits can be resumed on the heap of a later moment.

* `attempt` turns a raised signal into a value; `mapFault` changes faults on their way out.
* `throwValue` is where a value begins to travel; `catching` and `diverting` are where it may end.
* `await` performs a step as soon as it can be done.
* `iterate` runs a loop, no more often than its fuel allows; from time to time it lets the other
  threads go first.
-/

namespace ScriptEngine

/-- Whether a clause takes a value that is an instance of some types. -/
def CatchClause.takes (kinds : TypeExpr → Bool) (c : CatchClause Stmt) : Bool :=
  match c.type with
  | some t => kinds t.canonical
  | none => true

/-- What an evaluation waits for. -/
inductive Blocker
  /-- The other threads to go first. -/
  | turn
  | room (channel : Nat)
  /-- A value in a channel, or its end. -/
  | message (channel : Nat)
  | waker (id : Nat)
  | thread (id : Nat)
  | future (id : Nat)
  /-- The settlement of a future, but no longer than to a time. -/
  | futureUntil (id : Nat) (time : Nat)
  | time (time : Nat)
  deriving Repr, DecidableEq, Inhabited

/-- Whether what is waited for has come about. -/
def Blocker.isReady (h : Heap) : Blocker → Bool
  | turn => true
  | room c => (h.channel c).closed || !(h.channel c).isFull
  | message c => (h.channel c).readiness != .pending
  | waker w => h.hub.isWoken w
  | thread id => ((h.threads[id]?).getD none).isSome
  | future id => (h.future id).isDone
  | futureUntil id t => (h.future id).isDone || t ≤ h.clock
  | time t => t ≤ h.clock

/-- The time at which the waiting ends in any case. -/
def Blocker.deadline? : Blocker → Option Nat
  | futureUntil _ t => some t
  | time t => some t
  | _ => none

/-- The nesting of calls in a thread, its limit, and the frame whose code runs. -/
structure Context where
  depth : Nat
  limit : Nat
  frame : Option ScopeId

/-- The context in which a thread begins. -/
def Context.ofLimit (limit : Nat) : Context := ⟨0, limit, none⟩

/-- How far an evaluation has come. -/
inductive Res (α : Type)
  | value (a : α) (h : Heap)
  | raise (s : Signal) (h : Heap)
  | blocked (b : Blocker) (h : Heap) (resume : Heap → Res α)
  | outOfFuel

namespace Res

variable {α β : Type}

/-- The heap of an evaluation that has ended or waits. -/
def heap? : Res α → Option Heap
  | value _ h => some h
  | raise _ h => some h
  | blocked _ h _ => some h
  | outOfFuel => none

/-- Goes on with the value of an evaluation. -/
def bind : Res α → (α → Heap → Res β) → Res β
  | value a h, f => f a h
  | raise s h, _ => raise s h
  | blocked b h k, f => blocked b h fun h => (k h).bind f
  | outOfFuel, _ => outOfFuel

/-- Takes a raised signal as a value. -/
def attempt : Res α → Res (Except Signal α)
  | value a h => value (.ok a) h
  | raise s h => value (.error s) h
  | blocked b h k => blocked b h fun h => (k h).attempt
  | outOfFuel => outOfFuel

/-- Changes a raised fault. -/
def mapFault (f : Fault → Fault) : Res α → Res α
  | value a h => value a h
  | raise (.thrown e) h => raise (.thrown e) h
  | raise (.fault e) h => raise (.fault (f e)) h
  | blocked b h k => blocked b h fun h => (k h).mapFault f
  | outOfFuel => outOfFuel

end Res

def Eval (α : Type) := Context → Heap → Res α

namespace Eval

variable {α β σ : Type}

@[always_inline, inline]
protected def pure (a : α) : Eval α := fun _ h => .value a h

/-- One computation after another. -/
@[always_inline, inline]
protected def bind (x : Eval α) (f : α → Eval β) : Eval β := fun c h =>
  match x c h with
  | .value a h => f a c h
  | .raise s h => .raise s h
  | .blocked b h k => .blocked b h fun h => (k h).bind fun a h => f a c h
  | .outOfFuel => .outOfFuel

@[always_inline]
instance : Monad Eval where
  pure := Eval.pure
  bind := Eval.bind

@[inline]
def heap : Eval Heap := fun _ h => .value h h

/-- Changes the heap and gives a value. -/
@[inline]
def change (f : Heap → α × Heap) : Eval α := fun _ h =>
  match f h with
  | (a, h) => .value a h

@[inline]
def modify (f : Heap → Heap) : Eval Unit := fun _ h => .value () (f h)

/-- Notes an event. -/
@[inline]
def note (e : Event) : Eval Unit := modify (·.note e)

@[inline]
def raise (s : Signal) : Eval α := fun _ h => .raise s h

def fault (c : Cause) : Eval α := do
  note (.faulted c)
  raise (.fault (.ofCause c))

def throwValue (e : Exception) : Eval α := do
  note (.threw e)
  raise (.thrown e)

def unlessFault : Option Cause → Eval Unit
  | some c => fault c
  | none => pure ()

/-- The value of an outcome, or its fault. -/
def ofExcept : Except Cause α → Eval α
  | .ok a => pure a
  | .error c => fault c

/-- Gives up for want of fuel. -/
def giveUp : Eval α := fun _ _ => .outOfFuel

/-- Takes a raised signal as a value. -/
def attempt (x : Eval α) : Eval (Except Signal α) := fun c h => (x c h).attempt

def ofOutcome : Except Signal α → Eval α
  | .ok a => pure a
  | .error s => raise s

/-- Hands what a computation throws to the first clause that takes it; faults pass. -/
def catching (clauses : List (CatchClause Stmt)) (x : Eval α)
    (handler : CatchClause Stmt → Exception → Eval α) : Eval α := do
  note (.tried clauses)
  match ← attempt x with
  | .error (.thrown e) => do
    let h ← heap
    match clauses.find? (·.takes (h.instanceOf e.value)) with
    | some c => do
      note (.caught e c)
      handler c e
    | none => do
      note (.passed e)
      raise (.thrown e)
  | outcome => do
    note .finished
    ofOutcome outcome

/-- Handles all that an executor throws; faults pass. -/
def diverting (x : Eval α) (handler : Exception → Eval α) : Eval α := do
  note .executing
  match ← attempt x with
  | .error (.thrown e) => do
    note .rejected
    handler e
  | outcome => do
    note .executed
    ofOutcome outcome

/-- Changes the heap after a computation, whatever its outcome. -/
def afterwards (x : Eval α) (f : Heap → Heap) : Eval α := do
  let outcome ← attempt x
  modify f
  ofOutcome outcome

/-- Notes that an outcome counts no more: a fault is lost with it. -/
def supersede : Except Signal α → Eval Unit
  | .error (.fault f) => note (.superseded f.cause)
  | _ => pure ()

/-- Changes a raised fault. -/
def mapFault (f : Fault → Fault) (x : Eval α) : Eval α := fun c h => (x c h).mapFault f

/-- The frame whose code runs. -/
def currentFrame : Eval (Option ScopeId) := fun c h => .value c.frame h

/-- Notes where the evaluation of a part begins and where it ends. -/
def tracked (a : Act) (flow : α → Flow) (x : Eval α) : Eval α := do
  note (.began (← currentFrame) a)
  let outcome ← attempt x
  note (.ended a (outcome.map flow))
  ofOutcome outcome

/-- Runs the body of a call one call deeper, if calls may be nested so deep. -/
def admitted (x : Eval α) : Eval α := fun c h =>
  if c.limit < c.depth + 1 then
    (do note (.refused c.limit); fault (.callDepth c.limit) : Eval α) c h
  else x { c with depth := c.depth + 1 } h

/-- Makes a call, one call deeper. -/
def deeper (i : Invocation) (args : List Value) (x : Eval Value) : Eval Value := do
  note (.called i args)
  let outcome ← attempt (admitted x)
  note (.answered i outcome)
  ofOutcome outcome

/-- Runs a computation as code of a frame. -/
def within (frame : ScopeId) (x : Eval α) : Eval α := fun c h => x { c with frame := some frame } h

/-- Lets the other threads go first. -/
def yield : Eval Unit := fun _ h => .blocked .turn h fun h => .value () h

/-- Performs a step as soon as it can be done. -/
def await (b : Blocker) (step : Heap → Option (α × Heap)) : Eval α := fun _ h =>
  match step h with
  | some (a, h) => .value a h
  | none => .blocked b h fun h =>
    match step h with
    | some (a, h) => .value a h
    | none => .outOfFuel

/-- How often a loop runs before it lets the other threads go first. -/
def loopStride : Nat := 1000

/-- Runs a loop from a round on; the fuel limits the number of rounds. -/
def iterateFrom (body : σ → Eval (σ ⊕ α)) : Nat → Nat → σ → Eval α
  | 0, _, _ => giveUp
  | fuel + 1, round, s => do
    if round % loopStride = 0 then yield
    match ← body s with
    | .inl s => iterateFrom body fuel (round + 1) s
    | .inr a => pure a

/-- Runs a loop that goes on with a new state or ends with a result. -/
def iterate (fuel : Nat) (body : σ → Eval (σ ⊕ α)) (s : σ) : Eval α := iterateFrom body fuel 1 s

end Eval

/-- The parts of a computation that refer to each other. -/
inductive Task : Type → Type
  | eval (e : Expr) (env : Env) : Task Value
  | exec (s : Stmt) (env : Env) : Task Flow
  | call (callee : Value) (args : List Value) (typeArgs : List TypeExpr) (site : Span) : Task Value
  /-- The text of a value, as its `toString` methods give it. -/
  | text (v : Value) : Task String

/-- How the parts of a computation are run, and how often a loop may go round. -/
structure Engine where
  run : {α : Type} → Task α → Eval α
  fuel : Nat

namespace Engine

@[inline]
def eval (E : Engine) (e : Expr) (env : Env) : Eval Value := E.run (.eval e env)

@[inline]
def exec (E : Engine) (s : Stmt) (env : Env) : Eval Flow := E.run (.exec s env)

@[inline]
def call (E : Engine) (callee : Value) (args : List Value) (typeArgs : List TypeExpr)
    (site : Span) : Eval Value := E.run (.call callee args typeArgs site)

@[inline]
def text (E : Engine) (v : Value) : Eval String := E.run (.text v)

end Engine
end ScriptEngine
