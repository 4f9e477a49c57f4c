import ScriptEngine.Channel

/-!
# Traffic

Any number of threads use the channels of a hub at the same time.  Each step is what a thread does
while it holds a lock, so the steps of different threads may come in any order.

**Channels.** A thread that finds a channel full sleeps as a sender, one that finds it empty sleeps
as a receiver.  A send notifies one sleeping receiver, a take one sleeping sender, and closing
notifies all of both.  A thread that was notified tries again, and may have to sleep again: another
one may have come first.  A loop over a channel receives again and again.

**Selects.** A select registers its waker with the channels of its arms, one after another.  Then
it examines the arms one after another and fires one of those that were ready; if the value of that
one is gone, it begins to examine anew.  If none was ready it probes whether all of them are dead,
and if not it sleeps until its waker is woken.  In the end it takes its waker off the lists.

A step is labelled with the thread that makes it and the `Event` that it is for the channels.  A
`Run` keeps all labels, the latest first.
-/

namespace ScriptEngine
namespace Traffic

variable {α : Type}

/-- What a step is for the channels. -/
inductive Event (α : Type)
  | made (channel : Nat) (capacity : Option Nat)
  | sent (channel : Nat) (v : α)
  /-- A send fails since the channel is closed. -/
  | refused (channel : Nat)
  /-- A value is removed; with what a receiver would find next. -/
  | took (channel : Nat) (v : α) (left : Channel.Readiness)
  /-- A receiver learns that the channel is closed. -/
  | ended (channel : Nat)
  /-- Who does not wait finds no value. -/
  | missed (channel : Nat)
  /-- A channel is closed, perhaps not for the first time. -/
  | closed (channel : Nat)
  | began (arms : List Channel.Arm)
  /-- A select looks whether an arm is ready. -/
  | examined (arm : Nat)
  | selected (arms : List Channel.Arm) (how : Channel.Selected α)
  /-- Nothing that matters to the channels. -/
  | quiet

/-- How far a select has come. -/
inductive Phase (α : Type)
  /-- The waker is yet to be registered for some arms. -/
  | watching (rest : List Channel.Arm)
  /-- Some arms have been examined, and these were ready. -/
  | scanning (count : Nat) (ready : List Nat)
  | firing (arm : Nat)
  /-- Some arms have been found dead. -/
  | probing (count : Nat)
  /-- The waker is about to be looked at. -/
  | waiting
  /-- The select sleeps until its waker is woken. -/
  | asleep
  /-- The waker is yet to be taken off the lists for some arms. -/
  | leaving (rest : List Channel.Arm) (how : Channel.Selected α)

/-- How far a thread has come. -/
inductive Pc (α : Type)
  | idle
  | sending (channel : Nat) (v : α) (notified : Bool)
  /-- A receiver sleeps, or has been notified. -/
  | receiving (channel : Nat) (notified : Bool)
  | selecting (waker : Nat) (arms : List Channel.Arm) (phase : Phase α)

namespace Pc

/-- Whether a thread may try to send a value now. -/
def Offers (p : Pc α) (id : Nat) (v : α) : Prop := p = .idle ∨ p = .sending id v true

/-- Whether a thread may try to receive a value now. -/
def Asks (p : Pc α) (id : Nat) : Prop := p = .idle ∨ p = .receiving id true

/-- Notifies a sleeping sender of a channel. -/
def notifySender? (id : Nat) : Pc α → Option (Pc α)
  | sending id' v false => if id' = id then some (sending id v true) else none
  | _ => none

/-- Notifies a sleeping receiver of a channel. -/
def notifyReceiver? (id : Nat) : Pc α → Option (Pc α)
  | receiving id' false => if id' = id then some (receiving id true) else none
  | _ => none

end Pc

/-- Threads by number, each as far as it has come. -/
abbrev Threads (α : Type) := Nat → Pc α

namespace Threads

def set (f : Threads α) (t : Nat) (p : Pc α) : Threads α := fun i => if i = t then p else f i

/-- Whoever sleeps is notified. -/
def notifyAll (notify? : Pc α → Option (Pc α)) (f : Threads α) : Threads α :=
  fun i => (notify? (f i)).getD (f i)

/-- One of those who sleep is notified, if there is one. -/
inductive NotifyOne (notify? : Pc α → Option (Pc α)) (f : Threads α) : Threads α → Prop
  | nobody : (∀ i, notify? (f i) = none) → NotifyOne notify? f f
  | one {i : Nat} {p : Pc α} : notify? (f i) = some p → NotifyOne notify? f (f.set i p)

end Threads

/-- The channels and the threads that use them. -/
structure State (α : Type) where
  hub : Hub α
  pc : Threads α

namespace State

/-- There are no channels yet, and all threads are idle. -/
def start : State α := ⟨.empty, fun _ => .idle⟩

/-- A thread goes on, and leaves the hub in another state. -/
def goTo (s : State α) (t : Nat) (p : Pc α) (u : Hub α) : State α := ⟨u, s.pc.set t p⟩

def channel (s : State α) (id : Nat) : Channel α := s.hub.channel id

def Exists (s : State α) (id : Nat) : Prop := id < s.hub.channels.size

end State

/-- The steps of a thread. -/
inductive Step (s : State α) (t : Nat) : Event α → State α → Prop
  | make (capacity : Option Nat) :
      s.pc t = .idle →
      Step s t (.made (s.hub.add capacity).1 capacity) (s.goTo t .idle (s.hub.add capacity).2)
  | send {id : Nat} {v : α} {u : Hub α} {f : Threads α} :
      (s.pc t).Offers id v → s.Exists id → s.hub.send id v = some (true, u) →
      (s.pc.set t .idle).NotifyOne (Pc.notifyReceiver? id) f →
      Step s t (.sent id v) ⟨u, f⟩
  | refuse {id : Nat} {v : α} {u : Hub α} :
      (s.pc t).Offers id v → s.Exists id → s.hub.send id v = some (false, u) →
      Step s t (.refused id) (s.goTo t .idle u)
  | sleepFull {id : Nat} {v : α} :
      (s.pc t).Offers id v → s.Exists id → s.hub.send id v = none →
      Step s t .quiet (s.goTo t (.sending id v false) s.hub)
  | receive {id : Nat} {v : α} {u : Hub α} {f : Threads α} :
      (s.pc t).Asks id → s.Exists id → s.hub.receive id = some (some v, u) →
      (s.pc.set t .idle).NotifyOne (Pc.notifySender? id) f →
      Step s t (.took id v (u.channel id).readiness) ⟨u, f⟩
  | finish {id : Nat} {u : Hub α} :
      (s.pc t).Asks id → s.Exists id → s.hub.receive id = some (none, u) →
      Step s t (.ended id) (s.goTo t .idle u)
  | sleepEmpty {id : Nat} :
      (s.pc t).Asks id → s.Exists id → s.hub.receive id = none →
      Step s t .quiet (s.goTo t (.receiving id false) s.hub)
  | poll {id : Nat} {v : α} {u : Hub α} {f : Threads α} :
      s.pc t = .idle → s.Exists id → s.hub.tryReceive id = (some v, u) →
      (s.pc.set t .idle).NotifyOne (Pc.notifySender? id) f →
      Step s t (.took id v (u.channel id).readiness) ⟨u, f⟩
  | pollNone {id : Nat} {u : Hub α} :
      s.pc t = .idle → s.Exists id → s.hub.tryReceive id = (none, u) →
      Step s t (.missed id) (s.goTo t .idle u)
  | close {id : Nat} :
      s.pc t = .idle → s.Exists id → (s.channel id).closed = false →
      Step s t (.closed id) ⟨s.hub.close id,
        (s.pc.notifyAll (Pc.notifySender? id)).notifyAll (Pc.notifyReceiver? id)⟩
  | closeAgain {id : Nat} :
      s.pc t = .idle → s.Exists id → (s.channel id).closed = true →
      Step s t (.closed id) (s.goTo t .idle (s.hub.close id))
  | begin (arms : List Channel.Arm) :
      s.pc t = .idle → (∀ a ∈ arms, s.Exists a.channel) →
      Step s t (.began arms)
        (s.goTo t (.selecting s.hub.newWaker.1 arms (.watching arms)) s.hub.newWaker.2)
  | watch {w : Nat} {arms rest : List Channel.Arm} {a : Channel.Arm} :
      s.pc t = .selecting w arms (.watching (a :: rest)) →
      Step s t .quiet (s.goTo t (.selecting w arms (.watching rest)) (s.hub.watch w a.channel))
  | watched {w : Nat} {arms : List Channel.Arm} :
      s.pc t = .selecting w arms (.watching []) →
      Step s t .quiet (s.goTo t (.selecting w arms (.scanning 0 [])) s.hub)
  | examine {w k : Nat} {arms : List Channel.Arm} {ready : List Nat} {a : Channel.Arm} :
      s.pc t = .selecting w arms (.scanning k ready) → arms[k]? = some a →
      Step s t (.examined k) (s.goTo t (.selecting w arms (.scanning (k + 1)
        (if a.isReady s.hub.channels then ready ++ [k] else ready))) s.hub)
  | choose {w k i : Nat} {arms : List Channel.Arm} {ready : List Nat} :
      s.pc t = .selecting w arms (.scanning k ready) → arms[k]? = none → i ∈ ready →
      Step s t .quiet (s.goTo t (.selecting w arms (.firing i)) s.hub)
  | noneReady {w k : Nat} {arms : List Channel.Arm} :
      s.pc t = .selecting w arms (.scanning k []) → arms[k]? = none →
      Step s t .quiet (s.goTo t (.selecting w arms (.probing 0)) s.hub)
  | take {w i id : Nat} {arms : List Channel.Arm} {v : α} {u : Hub α} {f : Threads α} :
      s.pc t = .selecting w arms (.firing i) → arms[i]? = some (.receive id) →
      s.hub.tryReceive id = (some v, u) →
      (s.pc.set t (.selecting w arms (.leaving arms (.received i v)))).NotifyOne
        (Pc.notifySender? id) f →
      Step s t (.took id v (u.channel id).readiness) ⟨u, f⟩
  | takeNone {w i id : Nat} {arms : List Channel.Arm} {u : Hub α} :
      s.pc t = .selecting w arms (.firing i) → arms[i]? = some (.receive id) →
      s.hub.tryReceive id = (none, u) →
      Step s t .quiet (s.goTo t (.selecting w arms (.scanning 0 [])) u)
  | fireClosed {w i id : Nat} {arms : List Channel.Arm} :
      s.pc t = .selecting w arms (.firing i) → arms[i]? = some (.closed id) →
      Step s t .quiet (s.goTo t (.selecting w arms (.leaving arms (.closed i))) s.hub)
  | probe {w k : Nat} {arms : List Channel.Arm} {a : Channel.Arm} :
      s.pc t = .selecting w arms (.probing k) → arms[k]? = some a →
      a.isDead s.hub.channels = true →
      Step s t .quiet (s.goTo t (.selecting w arms (.probing (k + 1))) s.hub)
  | alive {w k : Nat} {arms : List Channel.Arm} {a : Channel.Arm} :
      s.pc t = .selecting w arms (.probing k) → arms[k]? = some a →
      a.isDead s.hub.channels = false →
      Step s t .quiet (s.goTo t (.selecting w arms .waiting) s.hub)
  | exhaust {w k : Nat} {arms : List Channel.Arm} :
      s.pc t = .selecting w arms (.probing k) → arms[k]? = none →
      Step s t .quiet (s.goTo t (.selecting w arms (.leaving arms .exhausted)) s.hub)
  | sleep {w : Nat} {arms : List Channel.Arm} :
      s.pc t = .selecting w arms .waiting → s.hub.isWoken w = false →
      Step s t .quiet (s.goTo t (.selecting w arms .asleep) s.hub)
  | wake {w : Nat} {arms : List Channel.Arm} {phase : Phase α} :
      s.pc t = .selecting w arms phase → phase = .waiting ∨ phase = .asleep →
      s.hub.isWoken w = true →
      Step s t .quiet (s.goTo t (.selecting w arms (.scanning 0 [])) (s.hub.rest w))
  | unwatch {w : Nat} {arms rest : List Channel.Arm} {a : Channel.Arm}
      {how : Channel.Selected α} :
      s.pc t = .selecting w arms (.leaving (a :: rest) how) →
      Step s t .quiet
        (s.goTo t (.selecting w arms (.leaving rest how)) (s.hub.unwatch w a.channel))
  | select {w : Nat} {arms : List Channel.Arm} {how : Channel.Selected α} :
      s.pc t = .selecting w arms (.leaving [] how) →
      Step s t (.selected arms how) (s.goTo t .idle s.hub)

/-- What has happened, the latest first, each with the thread that did it. -/
abbrev Log (α : Type) := List (Nat × Event α)

/-- The states that threads can reach, with what has happened on the way. -/
inductive Run : Log α → State α → Prop
  | start : Run [] .start
  | step {log : Log α} {s s' : State α} {t : Nat} {e : Event α} :
      Run log s → Step s t e s' → Run ((t, e) :: log) s'

end Traffic
end ScriptEngine
