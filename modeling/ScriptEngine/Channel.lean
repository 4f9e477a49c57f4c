import ScriptEngine.Fault.Cause

/-!
# Channels

A channel is a queue with an optional capacity that can be closed.  Each operation is one step that
either happens or has to wait.

* `send` waits while the queue is full and fails once the channel is closed.
* `receive` takes the oldest value; it waits while the channel is open and empty.
* `select?` looks for the first ready arm of several; it waits while none is ready, unless none can
  ever be.

A `Hub` holds the channels that threads share.  A select that has to wait registers a waker with the
channels of its arms; every send on such a channel and its closing wake it, and nothing else does.
-/

namespace ScriptEngine

/-- A queue of values between threads. -/
structure Channel (α : Type) where
  capacity : Option Nat
  queue : List α
  closed : Bool
  /-- The wakers of the selects that wait for the channel. -/
  watchers : List Nat
  deriving Inhabited

namespace Channel

variable {α : Type}

/-- An open channel; the capacity zero sets no limit. -/
def ofCapacity (capacity : Option Nat) : Channel α := ⟨capacity.filter (0 < ·), [], false, []⟩

/-- The number of queued values. -/
def size (c : Channel α) : Nat := c.queue.length

/-- Whether the queue has reached the capacity. -/
def isFull (c : Channel α) : Bool := c.capacity.any (· ≤ c.queue.length)

/-- What a receiver would find. -/
inductive Readiness
  | value
  | closed
  | pending
  deriving Repr, DecidableEq, Inhabited

/-- What a receiver would find now. -/
def readiness (c : Channel α) : Readiness :=
  if !c.queue.isEmpty then .value else if c.closed then .closed else .pending

/-- How a send goes. -/
inductive Sent (α : Type)
  | sent (c : Channel α)
  | refused
  | full

def send (c : Channel α) (v : α) : Sent α :=
  if c.closed then .refused
  else if c.isFull then .full
  else .sent { c with queue := c.queue ++ [v] }

/-- How a receive goes. -/
inductive Received (α : Type)
  | value (v : α) (c : Channel α)
  | closed
  | empty

/-- Receives the oldest value. -/
def receive (c : Channel α) : Received α :=
  match c.queue with
  | v :: rest => .value v { c with queue := rest }
  | [] => if c.closed then .closed else .empty

/-- Takes the oldest value if there is one. -/
def tryReceive (c : Channel α) : Option (α × Channel α) :=
  match c.queue with
  | v :: rest => some (v, { c with queue := rest })
  | [] => none

def close (c : Channel α) : Channel α := { c with closed := true }

def watch (c : Channel α) (waker : Nat) : Channel α :=
  { c with watchers := c.watchers ++ [waker] }

/-- Takes a waker off the list. -/
def unwatch (c : Channel α) (waker : Nat) : Channel α :=
  { c with watchers := c.watchers.filter (· != waker) }

/-- What an arm of a select waits for, with the number of its channel. -/
inductive Arm
  | receive (channel : Nat)
  | closed (channel : Nat)
  deriving Repr, DecidableEq, Inhabited

def Arm.channel : Arm → Nat
  | receive c => c
  | closed c => c

def Arm.isReady (cs : Array (Channel α)) : Arm → Bool
  | receive c => (cs[c]?).any (·.readiness == .value)
  | closed c => (cs[c]?).any (·.readiness == .closed)

/-- Whether an arm can never fire again. -/
def Arm.isDead (cs : Array (Channel α)) : Arm → Bool
  | receive c => (cs[c]?).any (·.readiness == .closed)
  | closed _ => false

/-- How a select ends. -/
inductive Selected (α : Type)
  | received (arm : Nat) (v : α)
  | closed (arm : Nat)
  | exhausted

def fire? (cs : Array (Channel α)) (arm : Nat) : Arm → Option (Selected α × Array (Channel α))
  | .receive c =>
    ((cs[c]?).bind tryReceive).map fun r => (.received arm r.1, cs.setIfInBounds c r.2)
  | .closed _ => some (.closed arm, cs)

/-- Fires the first ready arm, where `first` is the number of the first arm of the list. -/
def fireFirst? (cs : Array (Channel α)) (first : Nat) :
    List Arm → Option (Selected α × Array (Channel α))
  | [] => none
  | a :: rest => if a.isReady cs then fire? cs first a else fireFirst? cs (first + 1) rest

/-- Selects among arms: nothing as long as all have to wait. -/
def select? (cs : Array (Channel α)) (arms : List Arm) :
    Option (Selected α × Array (Channel α)) :=
  match fireFirst? cs 0 arms with
  | some r => some r
  | none => if arms.all (·.isDead cs) then some (.exhausted, cs) else none

end Channel

/-! ### Channels shared by threads -/

/-- The channels of a program with the wakers of its selects. -/
structure Hub (α : Type) where
  channels : Array (Channel α)
  /-- For each waker whether it has been woken. -/
  wakers : Array Bool

namespace Hub

variable {α : Type}

/-- The hub without channels. -/
def empty : Hub α := ⟨#[], #[]⟩

def channel (u : Hub α) (id : Nat) : Channel α := u.channels.getD id default

/-- Adds a channel and gives its number. -/
def add (u : Hub α) (capacity : Option Nat) : Nat × Hub α :=
  (u.channels.size, { u with channels := u.channels.push (.ofCapacity capacity) })

def put (u : Hub α) (id : Nat) (c : Channel α) : Hub α :=
  { u with channels := u.channels.setIfInBounds id c }

/-- Adds a waker that has not been woken and gives its number. -/
def newWaker (u : Hub α) : Nat × Hub α :=
  (u.wakers.size, { u with wakers := u.wakers.push false })

def isWoken (u : Hub α) (waker : Nat) : Bool := u.wakers.getD waker false

def wake (u : Hub α) (ws : List Nat) : Hub α :=
  { u with wakers := ws.foldl (fun a w => a.setIfInBounds w true) u.wakers }

/-- Makes a waker ready to be woken again. -/
def rest (u : Hub α) (waker : Nat) : Hub α :=
  { u with wakers := u.wakers.setIfInBounds waker false }

/-- Registers a waker with a channel. -/
def watch (u : Hub α) (waker id : Nat) : Hub α := u.put id ((u.channel id).watch waker)

/-- Takes a waker off the list of a channel. -/
def unwatch (u : Hub α) (waker id : Nat) : Hub α := u.put id ((u.channel id).unwatch waker)

/-- Sends a value and wakes who watches the channel; tells whether the channel was open.  There is
no result as long as the queue is full. -/
def send (u : Hub α) (id : Nat) (v : α) : Option (Bool × Hub α) :=
  match (u.channel id).send v with
  | .sent c => some (true, (u.put id c).wake c.watchers)
  | .refused => some (false, u)
  | .full => none

/-- Receives a value; nothing once the channel is closed and empty.  There is no result as long as
the channel is open and empty. -/
def receive (u : Hub α) (id : Nat) : Option (Option α × Hub α) :=
  match (u.channel id).receive with
  | .value v c => some (some v, u.put id c)
  | .closed => some (none, u)
  | .empty => none

def tryReceive (u : Hub α) (id : Nat) : Option α × Hub α :=
  match (u.channel id).tryReceive with
  | some (v, c) => (some v, u.put id c)
  | none => (none, u)

/-- Closes a channel and wakes who watches it; a closed one stays as it is. -/
def close (u : Hub α) (id : Nat) : Hub α :=
  if (u.channel id).closed then u
  else (u.put id (u.channel id).close).wake (u.channel id).watchers

/-- Fires the first ready arm, if there is one or if none can ever be ready. -/
def select? (u : Hub α) (arms : List Channel.Arm) : Option (Channel.Selected α × Hub α) :=
  (Channel.select? u.channels arms).map fun r => (r.1, { u with channels := r.2 })

end Hub
end ScriptEngine
