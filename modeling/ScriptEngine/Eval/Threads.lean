import ScriptEngine.Eval.Statement

/-!
# Threads

A program has a main thread and, for every job in its heap, a thread that runs the job.  Only one
thread runs at a time.  It runs until it ends or has to wait; then the waiting threads that can go
on do so, in the order in which they began to wait, and the main thread last.

* `runJob` is the work of a thread other than the main one.
* `drive` takes the main thread to its end, `turn` by turn.  Where nobody can go on, the clock is set
  to the next time that someone waits for; without such a time the program has no end.
* Threads that only let the others go first take a millisecond of the clock for a round.
-/

namespace ScriptEngine

/-- A thread that waits, and how it goes on. -/
structure Waiting where
  blocker : Blocker
  resume : Heap → Res Unit

namespace Eval

/-! ### The work of a thread -/

/-- What a thread ends with; a loop exit must not leave it. -/
def threadOutcome : Except Signal Flow → Outcome
  | .ok (.value v) | .ok (.ret v) => .returned v
  | .ok .stop => .faulted (.ofCause (.outsideLoop "break"))
  | .ok .next => .faulted (.ofCause (.outsideLoop "continue"))
  | .error (.thrown e) => .thrown e
  | .error (.fault f) => .faulted f

/-- Settles a future with what a computation makes of it; a raised signal rejects it. -/
def settleWith (target : Nat) (x : Eval Settlement) : Eval Unit := do
  let settlement ← match ← attempt x with
    | .ok s => pure s
    | .error s => pure (Builtin.rejection s)
  let _ ← Builtin.settleFuture target settlement

def runJob (E : Engine) : Job → Eval Unit
  | .thread id body env => do
    let outcome ← attempt (leaveFrame E env (.block body))
    modify fun h =>
      { h with threads := h.threads.setIfInBounds id (some (threadOutcome outcome)) }
  | .async body target =>
    settleWith target do pure (.fulfilled (← callback E body []))
  | .continuation k settled => settleWith k.target (Builtin.continueWith E k settled)

/-! ### Taking turns -/

/-- The threads that wait after one more has come as far as it can. -/
def enqueue (ws : List Waiting) : Res Unit → Option (List Waiting × Heap)
  | .value () h => some (ws, h)
  | .raise _ h => some (ws, h)
  | .blocked b h k => some (ws ++ [⟨b, k⟩], h)
  | .outOfFuel => none

/-- Begins the work of jobs, one after another. -/
def startJobs (E : Engine) (limit : Nat) :
    List Job → List Waiting → Heap → Option (List Waiting × Heap)
  | [], ws, h => some (ws, h)
  | j :: js, ws, h =>
    match enqueue ws (runJob E j (.ofLimit limit) h) with
    | some (ws, h) => startJobs E limit js ws h
    | none => none

/-- Lets each waiting thread go on that can. -/
def resumeReady : List Waiting → List Waiting → Heap → Option (List Waiting × Heap)
  | [], kept, h => some (kept, h)
  | w :: ws, kept, h =>
    if w.blocker.isReady h then
      match enqueue kept (w.resume h) with
      | some (kept, h) => resumeReady ws kept h
      | none => none
    else resumeReady ws (kept ++ [w]) h

/-- Whether what a thread waits for is more than its turn, and has come about. -/
def isAwake (h : Heap) (b : Blocker) : Bool := b != .turn && b.isReady h

/-- The earliest time that is waited for. -/
def nextDeadline? (bs : List Blocker) : Option Nat := (bs.filterMap Blocker.deadline?).min?

/-- The heap in which the threads go on.  The clock stands still while a thread is awake or about
to begin; a round of threads that only take turns lasts a millisecond; else the clock is set to the
next time that is waited for. -/
def advance? (bs : List Blocker) (h : Heap) : Option Heap :=
  if !h.jobs.isEmpty || bs.any (isAwake h) then some h
  else if bs.contains .turn then some { h with clock := h.clock + 1 }
  else (nextDeadline? bs).map fun t => { h with clock := max h.clock t }

/-- Lets every thread but the main one go on as far as it can. -/
def round (E : Engine) (limit : Nat) (ws : List Waiting) (h : Heap) :
    Option (List Waiting × Heap) :=
  match startJobs E limit h.jobs ws { h with jobs := [] } with
  | some (ws, h) => resumeReady ws [] h
  | none => none

/-- One turn of a main thread that waits: the other threads go on, and then the main one does if it
can.  There is none if nobody can ever go on. -/
def turn {α : Type} (E : Engine) (limit : Nat) (b : Blocker) (h : Heap) (resume : Heap → Res α)
    (ws : List Waiting) : Option (Res α × List Waiting) :=
  match advance? (b :: ws.map (·.blocker)) h with
  | none => none
  | some h =>
    match round E limit ws h with
    | none => none
    | some (ws, h) => some (if b.isReady h then resume h else .blocked b h resume, ws)

/-- Runs the main thread to its end.  The result is what it ended with and the threads that then
still wait; there is none if the program has no end. -/
def drive {α : Type} (E : Engine) (limit : Nat) :
    Nat → Res α → List Waiting → Option (Except Signal α × List Waiting × Heap)
  | _, .value a h, ws => some (.ok a, ws, h)
  | _, .raise s h, ws => some (.error s, ws, h)
  | _, .outOfFuel, _ => none
  | 0, .blocked .., _ => none
  | fuel + 1, .blocked b h resume, ws =>
    match turn E limit b h resume ws with
    | none => none
    | some (r, ws) => drive E limit fuel r ws

end Eval
end ScriptEngine
