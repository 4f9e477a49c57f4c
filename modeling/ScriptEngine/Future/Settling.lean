import ScriptEngine.Builtin.Concurrent

/-!
# Settling

Any number of threads use futures at the same time.  Each step is what a thread does while it holds
the lock of a future, or on its own, so the steps of different threads may come in any order.

**Settling.** A thread that finds a future open settles it, wakes all who wait for it and takes its
continuations along.  Without the lock it then runs them, one after another, and reports success.  A
thread that comes late reports that it did not settle the future.

**Continuations.** A call of `then`, `catch` or `finally` makes the future that it gives, the target,
and then registers a continuation: with an open future it is stored, else the thread that registers
it runs it.  To run a continuation is to start a thread.  That thread calls the callback if the
settlement is its case, and settles the target.

**Waiting.** Who finds a future open sleeps until it is woken, or at most for some time, and looks
again.

A step is labelled with the thread that makes it and the `Event` that it is.  A `Run` keeps all
labels, the latest first.
-/

namespace ScriptEngine

namespace ChainStep

/-- The arguments for the callback, if a settlement is its case. -/
def arguments? (message : Exception → String) : ChainStep → Settlement → Option (List Value)
  | .onFulfilled, .fulfilled v => some [v]
  | .onRejected, .rejected e => some [.str (message e)]
  | .always, _ => some []
  | _, _ => none

/-- What comes of a settlement for which the callback was called. -/
def conclude : ChainStep → Settlement → Except Signal Value → Settlement
  | .always, x, .ok _ => x
  | _, _, .ok v => .fulfilled v
  | _, _, .error s => Builtin.rejection s

end ChainStep

namespace Settling

/-- How callbacks behave: the message of an exception, and what may come of a call. -/
structure Callbacks where
  message : Exception → String
  answers : Value → List Value → Except Signal Value → Prop

/-- What a step is for the futures. -/
inductive Event
  | made (id : Nat)
  | registered (id : Nat) (k : Continuation)
  /-- A thread is to settle a future, by a call or since a body has ended. -/
  | asked (id : Nat) (x : Settlement)
  | settled (id : Nat) (x : Settlement)
  /-- The attempt to settle a future ends; with whether it has settled the future. -/
  | answered (id : Nat) (x : Settlement) (won : Bool)
  /-- A continuation is run with a settlement. -/
  | ran (id : Nat) (k : Continuation) (x : Settlement)
  | called (k : Continuation) (x : Settlement) (args : List Value)
  /-- A continuation has nothing to call. -/
  | passed (k : Continuation) (x : Settlement)
  /-- A wait ends with a settlement. -/
  | awaited (id : Nat) (x : Settlement)
  /-- A wait ends for want of time. -/
  | gaveUp (id : Nat)
  /-- A thread looks at the settlement. -/
  | looked (id : Nat) (x : Settlement)
  | quiet

/-- How far a thread has come. -/
inductive Pc
  | idle
  | waiting (id : Nat) (timed notified : Bool)
  /-- About to settle a future. -/
  | settling (id : Nat) (x : Settlement)
  /-- A future has been settled; these continuations are yet to be run. -/
  | handing (id : Nat) (x : Settlement) (rest : List Continuation)
  /-- A target has been made; its continuation is yet to be registered. -/
  | chaining (id : Nat) (k : Continuation)
  /-- A continuation came too late to be stored, and is yet to be run. -/
  | holding (id : Nat) (k : Continuation) (x : Settlement)
  /-- The thread of a continuation. -/
  | working (k : Continuation) (x : Settlement)

namespace Pc

/-- Wakes a thread that waits for a future. -/
def wake (id : Nat) : Pc → Pc
  | waiting i timed notified => waiting i timed (notified || i == id)
  | p => p

/-- Whether a thread may look whether a future has settled. -/
inductive Looks (id : Nat) : Pc → Prop
  | idle : Looks id .idle
  | woken (timed : Bool) : Looks id (.waiting id timed true)
  | timed (notified : Bool) : Looks id (.waiting id true notified)

end Pc

/-- Whom an event wakes. -/
def Event.wake : Event → Pc → Pc
  | settled id _ => Pc.wake id
  | _ => id

/-- Futures by number. -/
abbrev Futures := List (Future Continuation)

def Futures.at (fs : Futures) (id : Nat) : Future Continuation := fs.getD id default

/-- A move of a thread: how far it had come, the event, the futures afterwards, how far it has then
come, and the threads that it starts. -/
inductive Move (C : Callbacks) (fs : Futures) : Pc → Event → Futures → Pc → List Pc → Prop
  | start : Move C fs .idle .quiet fs .idle [.idle]
  | make (kind : FutureKind) :
      Move C fs .idle (.made fs.length) (fs ++ [.ofKind kind]) .idle []
  | ask {id : Nat} (x : Settlement) :
      id < fs.length →
      Move C fs .idle (.asked id x) fs (.settling id x) []
  | settle {id : Nat} {x : Settlement} {f : Future Continuation} {ks : List Continuation} :
      id < fs.length → (fs.at id).settle? x = some (f, ks) →
      Move C fs (.settling id x) (.settled id x) (fs.set id f) (.handing id x ks) []
  | late {id : Nat} {x : Settlement} :
      (fs.at id).settle? x = none →
      Move C fs (.settling id x) (.answered id x false) fs .idle []
  | hand {id : Nat} {x : Settlement} {k : Continuation} {ks : List Continuation} :
      Move C fs (.handing id x (k :: ks)) (.ran id k x) fs (.handing id x ks) [.working k x]
  | handed {id : Nat} {x : Settlement} :
      Move C fs (.handing id x []) (.answered id x true) fs .idle []
  | chain {id : Nat} (step : ChainStep) (callback : Value) :
      id < fs.length →
      Move C fs .idle (.made fs.length) (fs ++ [.ofKind .promise])
        (.chaining id ⟨step, callback, fs.length⟩) []
  | register {id : Nat} {k : Continuation} {f : Future Continuation} :
      id < fs.length → (fs.at id).onSettle k = (f, none) →
      Move C fs (.chaining id k) (.registered id k) (fs.set id f) .idle []
  | registerLate {id : Nat} {k : Continuation} {f : Future Continuation} {x : Settlement} :
      (fs.at id).onSettle k = (f, some x) →
      Move C fs (.chaining id k) (.registered id k) fs (.holding id k x) []
  | run {id : Nat} {k : Continuation} {x : Settlement} :
      Move C fs (.holding id k x) (.ran id k x) fs .idle [.working k x]
  | call {k : Continuation} {x : Settlement} {args : List Value} {r : Except Signal Value} :
      k.step.arguments? C.message x = some args → C.answers k.callback args r →
      Move C fs (.working k x) (.called k x args) fs
        (.settling k.target (k.step.conclude x r)) []
  | pass {k : Continuation} {x : Settlement} :
      k.step.arguments? C.message x = none →
      Move C fs (.working k x) (.passed k x) fs (.settling k.target x) []
  | look {id : Nat} :
      Move C fs .idle (.looked id (fs.at id).settlement) fs .idle []
  | find {id : Nat} {p : Pc} :
      p.Looks id → (fs.at id).isDone = true →
      Move C fs p (.awaited id (fs.at id).settlement) fs .idle []
  | sleep {id : Nat} (timed : Bool) :
      (fs.at id).isDone = false →
      Move C fs .idle .quiet fs (.waiting id timed false) []
  | sleepAgain {id : Nat} {timed : Bool} :
      (fs.at id).isDone = false →
      Move C fs (.waiting id timed true) .quiet fs (.waiting id timed false) []
  | giveUp {id : Nat} {notified : Bool} :
      (fs.at id).isDone = false →
      Move C fs (.waiting id true notified) (.gaveUp id) fs .idle []

/-- The futures and the threads that use them. -/
structure State where
  futures : Futures
  threads : List Pc

namespace State

/-- There are no futures yet, and one thread. -/
def start : State := ⟨[], [.idle]⟩

def future (s : State) (id : Nat) : Future Continuation := s.futures.at id

end State

/-- The steps of a thread. -/
inductive Step (C : Callbacks) (s : State) (t : Nat) : Event → State → Prop
  | move {p p' : Pc} {e : Event} {fs : Futures} {new : List Pc} :
      s.threads[t]? = some p → Move C s.futures p e fs p' new →
      Step C s t e ⟨fs, (s.threads.map e.wake).set t p' ++ new⟩

/-- What has happened, the latest first, each with the thread that did it. -/
abbrev Log := List (Nat × Event)

/-- The states that threads can reach, with what has happened on the way. -/
inductive Run (C : Callbacks) : Log → State → Prop
  | start : Run C [] .start
  | step {log : Log} {s s' : State} {t : Nat} {e : Event} :
      Run C log s → Step C s t e s' → Run C ((t, e) :: log) s'

end Settling
end ScriptEngine
