import ScriptEngine.Builtin.Basic

/-!
# Threads, channels and futures

The methods through which threads meet.  Those that may have to wait perform their step as soon as
it can be done.
-/

namespace ScriptEngine
namespace Builtin

/-- Waits for the end of a thread; what leaves it is raised here. -/
def awaitThread (id : Nat) : Eval Value := do
  let outcome ← Eval.await (.thread id) fun h => ((h.threads[id]?).getD none).map (·, h)
  match outcome with
  | .returned v => pure v
  | .thrown e => Eval.throwValue e
  | .faulted f => Eval.raise (.fault f)

/-- Starts a thread on a copy of all that a scope sees. -/
def startThread (body : List Stmt) (env : Env) : Eval Value :=
  Eval.change fun h =>
    let r := h.scopes.snapshot env
    let id := h.threads.size
    (.thread id, { h with
      scopes := r.2
      threads := h.threads.push none
      jobs := h.jobs ++ [.thread id body r.1] })

def callThread (id : Nat) (name : String) : Eval Value := do
  match name with
  | "join" => awaitThread id
  | "isAlive" => do pure (.bool (((← Eval.heap).threads[id]?).getD none).isNone)
  | "id" => pure (count (id + 1))
  | "toString" => do pure (.str ((← Eval.heap).display (.thread id)))
  | _ => Eval.fault (.missingMember "Thread" name)

/-! ### Channels -/

/-- Sends a value, as soon as there is room. -/
def sendValue (id : Nat) (v : Value) : Eval Unit := do
  let sent ← Eval.await (.room id) fun h =>
    (h.hub.send id v).map fun r => (r.1, { h with hub := r.2 })
  if !sent then Eval.fault .closedChannel

/-- Receives a value, as soon as there is one; nothing once the channel is closed and empty. -/
def receiveValue (id : Nat) : Eval (Option Value) :=
  Eval.await (.message id) fun h =>
    (h.hub.receive id).map fun r => (r.1, { h with hub := r.2 })

def tryReceiveValue (id : Nat) : Eval Value :=
  Eval.change fun h =>
    let r := h.hub.tryReceive id
    (r.1.getD .nil, { h with hub := r.2 })

/-- Fires an arm if one is ready. -/
def tryArms (arms : List Channel.Arm) : Eval (Option (Channel.Selected Value)) :=
  Eval.change fun h =>
    match h.hub.select? arms with
    | some r => (some r.1, { h with hub := r.2 })
    | none => (none, h)

/-- Waits until a waker is woken. -/
def awaitWaker (waker : Nat) : Eval Unit :=
  Eval.await (.waker waker) fun h =>
    if h.hub.isWoken waker then some ((), { h with hub := h.hub.rest waker }) else none

/-- Fires an arm, as soon as one is ready when the waker is woken. -/
def awaitArms (fuel : Nat) (waker : Nat) (arms : List Channel.Arm) :
    Eval (Channel.Selected Value) :=
  Eval.iterate fuel (fun (_ : Unit) => do
    match ← tryArms arms with
    | some r => pure (.inr r)
    | none => do
      awaitWaker waker
      pure (.inl ())) ()

/-- Waits for one of several arms and fires it. -/
def selectArm (fuel : Nat) (arms : List Channel.Arm) : Eval (Channel.Selected Value) := do
  let waker ← Eval.change fun h =>
    let r := h.hub.newWaker
    (r.1, { h with hub := arms.foldl (fun u a => u.watch r.1 a.channel) r.2 })
  let selected ← awaitArms fuel waker arms
  Eval.modify fun h => { h with hub := arms.foldl (fun u a => u.unwatch waker a.channel) h.hub }
  pure selected

def makeChannel (typeArgs : List TypeExpr) (args : List Value) : Eval Value := do
  if 1 < args.length then Eval.fault (.arity "0..1" args.length)
  if 1 < typeArgs.length then
    Eval.fault (.type s!"Channel expects 1 type argument, got {typeArgs.length}")
  match args with
  | [] => Eval.change fun h => h.newChannel typeArgs.head? none
  | _ => do
    let n ← Eval.ofExcept (intAt (← Eval.heap) args 0 "Channel capacity")
    if n.toInt < 0 then Eval.fault (.type s!"channel capacity must be >= 0, got {n}")
    Eval.change fun h => h.newChannel typeArgs.head? (some n.toInt.toNat)

/-- The fault of a value that a channel does not carry. -/
def messageFault? (h : Heap) (element : Option TypeExpr) (v : Value) : Option Cause :=
  element.bind fun t =>
    if h.conforms v t [] then none
    else some (.type
      s!"Channel<{t.render}>: expected {t.render}, got {h.typeName v}")

def callChannel (id : Nat) (element : Option TypeExpr) (name : String) (args : List Value) :
    Eval Value := do
  match name with
  | "send" => do
    Eval.ofExcept (takesExactly args 1)
    Eval.unlessFault (messageFault? (← Eval.heap) element (argument args 0))
    sendValue id (argument args 0)
    pure .nil
  | "recv" => do pure ((← receiveValue id).getD .nil)
  | "tryRecv" => tryReceiveValue id
  | "close" => do
    Eval.modify fun h => { h with hub := h.hub.close id }
    pure .nil
  | "isClosed" => do pure (.bool ((← Eval.heap).channel id).closed)
  | "len" | "length" => do pure (count ((← Eval.heap).channel id).size)
  | "capacity" => do pure ((((← Eval.heap).channel id).capacity.map count).getD .nil)
  | "toString" => do pure (.str ((← Eval.heap).display (.channel id element)))
  | _ => Eval.fault (.missingMember "Channel" name)

/-! ### Futures -/

/-- Settles a future and tells whether it was open. -/
def settleFuture (id : Nat) (s : Settlement) : Eval Bool := Eval.change fun h => h.settle id s

/-- Starts a function on a thread of its own; its result settles a new promise. -/
def startAsync (args : List Value) : Eval Value := do
  Eval.ofExcept (takesExactly args 1)
  let body ← Eval.ofExcept (firstCallback (← Eval.heap) args "async")
  Eval.change fun h =>
    let r := h.newFuture .promise
    (.future r.1 .promise, { r.2 with jobs := r.2.jobs ++ [.async body r.1] })

/-- Makes a promise and gives its executor the functions that settle it; what the executor throws
rejects it. -/
def makePromise (E : Engine) (args : List Value) : Eval Value := do
  Eval.ofExcept (takesExactly args 1)
  let executor ← Eval.ofExcept (firstCallback (← Eval.heap) args "Promise")
  let id ← Eval.change fun h => h.newFuture .promise
  let execute : Eval Unit := do
    let _ ← Eval.callback E executor [.native (.resolve id), .native (.reject id)]
  Eval.diverting execute fun e => do let _ ← settleFuture id (.rejected e)
  pure (.future id .promise)

/-- Makes a future that any code may settle. -/
def makeCompletable (args : List Value) : Eval Value := do
  Eval.ofExcept (takesExactly args 0)
  Eval.change fun h =>
    let r := h.newFuture .completable
    (.future r.1 .completable, r.2)

/-- What a settlement gives to those who wait for it. -/
def settledValue (E : Engine) : Settlement → Eval Value
  | .fulfilled v => pure v
  | .rejected e => Eval.throwValue e
  | .cancelled => Eval.throwNew E "CancellationError" "future was cancelled"
  | .pending => pure .nil

def awaitFuture (id : Nat) : Eval Settlement :=
  Eval.await (.future id) fun h =>
    if (h.future id).isDone then some ((h.future id).settlement, h) else none

/-- Waits for a settlement, but no longer than to a time. -/
def awaitUntil (id : Nat) (time : Nat) : Eval (Option Settlement) :=
  Eval.await (.futureUntil id time) fun h =>
    if (h.future id).isDone then some (some (h.future id).settlement, h)
    else if time ≤ h.clock then some (none, h)
    else none

/-- Registers a continuation that settles a new promise. -/
def chainFuture (id : Nat) (step : ChainStep) (callee : Value) : Eval Value :=
  Eval.change fun h =>
    let r := h.newFuture .promise
    (.future r.1 .promise, r.2.onSettle id ⟨step, callee, r.1⟩)

def callFuture (E : Engine) (id : Nat) (kind : FutureKind) (name : String) (args : List Value) :
    Eval Value := do
  let chain (step : ChainStep) : Eval Value := do
    chainFuture id step (← Eval.ofExcept (firstCallback (← Eval.heap) args name))
  match name with
  | "then" => chain .onFulfilled
  | "catch" => chain .onRejected
  | "finally" => chain .always
  | "await" | "get" => do
    Eval.ofExcept (takesExactly args 0)
    settledValue E (← awaitFuture id)
  | "getTimeout" => do
    let h ← Eval.heap
    let n ← Eval.ofExcept (intAt h args 0 "getTimeout")
    match ← awaitUntil id (h.clock + n.toInt.toNat) with
    | some s => settledValue E s
    | none => Eval.throwNew E "TimeoutError" s!"timeout waiting for {kind.name}"
  | "complete" => do
    Eval.ofExcept (takesExactly args 1)
    pure (.bool (← settleFuture id (.fulfilled (argument args 0))))
  | "completeExceptionally" => do
    Eval.ofExcept (takesExactly args 1)
    pure (.bool (← settleFuture id (.rejected ⟨argument args 0, none⟩)))
  | "cancel" => do pure (.bool (← settleFuture id .cancelled))
  | "isCancelled" => do
    match ((← Eval.heap).future id).settlement with
    | .cancelled => pure (.bool true)
    | _ => pure (.bool false)
  | "isDone" => do pure (.bool ((← Eval.heap).future id).isDone)
  | "getState" => do pure (.str ((← Eval.heap).future id).settlement.word)
  | "toString" => do pure (.str ((← Eval.heap).future id).text)
  | _ => Eval.fault (.missingMember kind.name name)

/-- The settlement that a raised signal makes of a promise. -/
def rejection : Signal → Settlement
  | .thrown e => .rejected e
  | .fault f => .rejected ⟨.str f.cause.text, f.span⟩

def continueWith (E : Engine) (k : Continuation) (settled : Settlement) : Eval Settlement := do
  match k.step, settled with
  | .onFulfilled, .fulfilled v => do pure (.fulfilled (← Eval.callback E k.callback [v]))
  | .onRejected, .rejected e => do
    let message := (← Eval.heap).exceptionMessage e
    pure (.fulfilled (← Eval.callback E k.callback [.str message]))
  | .always, s => do
    let _ ← Eval.callback E k.callback []
    pure s
  | _, s => pure s

end Builtin
end ScriptEngine
