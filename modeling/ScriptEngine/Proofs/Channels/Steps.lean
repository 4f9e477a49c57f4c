import ScriptEngine.Channel.Traffic
import ScriptEngine.Proofs.Channels.Hub

/-!
# What a step can do

**Effects.** However many kinds of steps there are, a step does one of a few things to the hub.
`Step.effect` tells which; what a step does to a channel, to its list of wakers and to a waker is
read off from there.

**Threads.** A step moves the thread that makes it, and may notify others that sleep at a channel.
It leaves the selects of other threads where they are.
-/

namespace ScriptEngine
namespace Traffic

variable {α : Type}

namespace Event

/-- Whether an event changes what a channel holds, or closes it. -/
def changes (id : Nat) : Event α → Bool
  | made i _ | sent i _ | took i _ _ | closed i => i == id
  | _ => false

end Event

/-! ### Effects on the hub -/

/-- What a step of a thread does to a hub. -/
inductive Effect (p : Pc α) (u : Hub α) : Event α → Hub α → Prop
  | none {e : Event α} : (∀ id, e.changes id = false) → Effect p u e u
  | made (capacity : Option Nat) :
      Effect p u (.made u.channels.size capacity) (u.add capacity).2
  | sent {id : Nat} {v : α} :
      id < u.channels.size → (u.channel id).closed = false → (u.channel id).isFull = false →
      Effect p u (.sent id v) ((u.put id
        { u.channel id with queue := (u.channel id).queue ++ [v] }).wake (u.channel id).watchers)
  | took {id : Nat} {v : α} {rest : List α} :
      id < u.channels.size → (u.channel id).queue = v :: rest →
      Effect p u (.took id v (Channel.readiness { u.channel id with queue := rest }))
        (u.put id { u.channel id with queue := rest })
  | closed {id : Nat} :
      id < u.channels.size → (u.channel id).closed = false →
      Effect p u (.closed id) ((u.put id (u.channel id).close).wake (u.channel id).watchers)
  | closedAgain {id : Nat} :
      (u.channel id).closed = true → Effect p u (.closed id) u
  | began (arms : List Channel.Arm) : Effect p u (.began arms) u.newWaker.2
  | watched {w : Nat} {arms rest : List Channel.Arm} {a : Channel.Arm} :
      p = .selecting w arms (.watching (a :: rest)) → Effect p u .quiet (u.watch w a.channel)
  | unwatched {w : Nat} {arms rest : List Channel.Arm} {a : Channel.Arm}
      {how : Channel.Selected α} :
      p = .selecting w arms (.leaving (a :: rest) how) →
      Effect p u .quiet (u.unwatch w a.channel)
  | rested {w : Nat} {arms : List Channel.Arm} {phase : Phase α} :
      p = .selecting w arms phase → Effect p u .quiet (u.rest w)

/-- A channel that holds a value exists. -/
theorem exists_of_queue
    {u : Hub α} {id : Nat} {v : α} {rest : List α}
    (hqueue : (u.channel id).queue = v :: rest) :
    id < u.channels.size := by
  refine Nat.lt_of_not_le fun hle => ?_
  rw [Hub.channel_of_size_le hle] at hqueue
  cases hqueue

/-- A value is taken out of a hub. -/
theorem Effect.of_taken
    {p : Pc α} {u u' : Hub α} {id : Nat} {v : α}
    (htaken : ∃ rest, (u.channel id).queue = v :: rest ∧
      u' = u.put id { u.channel id with queue := rest }) :
    Effect p u (.took id v (u'.channel id).readiness) u' := by
  obtain ⟨rest, hqueue, rfl⟩ := htaken
  have hid := exists_of_queue hqueue
  rw [Hub.channel_put_self hid]
  exact .took hid hqueue

/-- What a step does to the hub. -/
theorem Step.effect
    {s s' : State α} {t : Nat} {e : Event α}
    (h : Step s t e s') :
    Effect (s.pc t) s.hub e s'.hub := by
  cases h with
  | make capacity _ =>
      exact .made capacity
  | send _ hid hsend _ =>
      obtain ⟨hopen, hroom, rfl⟩ := Hub.send_sent hsend
      exact .sent hid hopen hroom
  | refuse _ _ hsend =>
      obtain ⟨-, rfl⟩ := Hub.send_refused_iff.mp hsend
      exact .none fun _ => rfl
  | sleepFull _ _ _ =>
      exact .none fun _ => rfl
  | receive _ _ hreceive _ =>
      exact .of_taken (Hub.receive_some hreceive)
  | finish _ _ hreceive =>
      obtain ⟨-, -, rfl⟩ := Hub.receive_closed hreceive
      exact .none fun _ => rfl
  | sleepEmpty _ _ _ =>
      exact .none fun _ => rfl
  | poll _ _ htry _ =>
      exact .of_taken (Hub.tryReceive_some htry)
  | pollNone _ _ htry =>
      obtain ⟨-, rfl⟩ := Hub.tryReceive_none htry
      exact .none fun _ => rfl
  | close _ hid hopen =>
      rw [show s.hub.close _ = _ from Hub.close_of_open hopen]
      exact .closed hid hopen
  | closeAgain _ _ hclosed =>
      rw [State.goTo, Hub.close_of_closed hclosed]
      exact .closedAgain hclosed
  | begin arms _ _ =>
      exact .began arms
  | watch hpc =>
      exact .watched hpc
  | watched _ =>
      exact .none fun _ => rfl
  | examine _ _ =>
      exact .none fun _ => rfl
  | choose _ _ _ =>
      exact .none fun _ => rfl
  | noneReady _ _ =>
      exact .none fun _ => rfl
  | take _ _ htry _ =>
      exact .of_taken (Hub.tryReceive_some htry)
  | takeNone _ _ htry =>
      obtain ⟨-, rfl⟩ := Hub.tryReceive_none htry
      exact .none fun _ => rfl
  | fireClosed _ _ =>
      exact .none fun _ => rfl
  | probe _ _ _ =>
      exact .none fun _ => rfl
  | alive _ _ _ =>
      exact .none fun _ => rfl
  | exhaust _ _ =>
      exact .none fun _ => rfl
  | sleep _ _ =>
      exact .none fun _ => rfl
  | wake hpc _ _ =>
      exact .rested hpc
  | unwatch hpc =>
      exact .unwatched hpc
  | select _ =>
      exact .none fun _ => rfl

/-! ### Channels -/

/-- What an event does to a channel. -/
inductive Change (id : Nat) (e : Event α) (c : Channel α) : Channel α → Prop
  | none {ws : List Nat} : e.changes id = false → Change id e c { c with watchers := ws }
  | made {capacity : Option Nat} :
      e = .made id capacity → c = ⟨none, [], false, []⟩ → Change id e c (.ofCapacity capacity)
  | sent {v : α} :
      e = .sent id v → c.closed = false → c.isFull = false →
      Change id e c { c with queue := c.queue ++ [v] }
  | took {v : α} {rest : List α} :
      e = .took id v (Channel.readiness { c with queue := rest }) → c.queue = v :: rest →
      Change id e c { c with queue := rest }
  | closed : e = .closed id → Change id e c c.close

namespace Change

variable {id : Nat} {e : Event α} {c c' : Channel α}

/-- A closed channel stays closed. -/
theorem closed_mono
    (h : Change id e c c')
    (hc : c.closed = true) :
    c'.closed = true := by
  cases h with
  | none | sent | took =>
      exact hc
  | made _ hempty =>
      subst hempty
      cases hc
  | closed _ =>
      rfl

/-- A closing closes a channel. -/
theorem closed_of_closed
    (h : Change id (.closed id) c c') :
    c'.closed = true := by
  cases h with
  | none he =>
      simp [Event.changes] at he
  | made he | sent he | took he =>
      cases he
  | closed _ =>
      rfl

/-- Nothing else does. -/
theorem eq_closed
    (h : Change id e c c')
    (hc : c.closed = false) (hc' : c'.closed = true) :
    e = .closed id := by
  cases h with
  | none | sent | took =>
      rw [hc] at hc'
      cases hc'
  | made _ hempty =>
      cases hc'
  | closed he =>
      exact he

/-- An event that is no matter of a channel leaves what it holds as it was. -/
theorem frame
    (h : Change id e c c')
    (he : e.changes id = false) :
    c'.queue = c.queue ∧ c'.closed = c.closed := by
  cases h with
  | none _ =>
      exact ⟨rfl, rfl⟩
  | made heq _ | sent heq _ _ | took heq _ | closed heq =>
      subst heq
      simp [Event.changes] at he

end Change

namespace Effect

variable {p : Pc α} {u u' : Hub α} {e : Event α} {id i : Nat} {c : Channel α}

/-- A channel that is left alone. -/
theorem same
    (hchannel : u'.channel id = u.channel id) (he : e.changes id = false) :
    Change id e (u.channel id) (u'.channel id) := by
  rw [hchannel]
  exact .none he

/-- One channel is replaced, and the others are left alone. -/
theorem change_put
    (hid : i < u.channels.size) (hchange : Change i e (u.channel i) c)
    (hothers : ∀ id, id ≠ i → e.changes id = false) :
    Change id e (u.channel id) ((u.put i c).channel id) := by
  by_cases heq : id = i
  · subst heq
    rw [Hub.channel_put_self hid]
    exact hchange
  · exact same (Hub.channel_put_of_ne heq) (hothers id heq)

/-- A change of a list of wakers is no matter of what the channels hold. -/
theorem change_watchers
    {ws : List Nat}
    (he : ∀ id, e.changes id = false) :
    Change id e (u.channel id) ((u.put i { u.channel i with watchers := ws }).channel id) := by
  by_cases hid : i < u.channels.size
  · exact change_put hid (.none (he i)) fun id _ => he id
  · refine same ?_ (he id)
    have hput : u.put i { u.channel i with watchers := ws } = u := by
      simp only [Hub.put, Array.setIfInBounds, dif_neg hid]
    rw [hput]

/-- What a step does to a channel. -/
theorem change
    (h : Effect p u e u') (id : Nat) :
    Change id e (u.channel id) (u'.channel id) := by
  cases h with
  | none he =>
      exact .none (he id)
  | made capacity =>
      by_cases heq : id = u.channels.size
      · subst heq
        rw [Hub.channel_add_self]
        exact .made rfl (Hub.channel_of_size_le (Nat.le_refl _))
      · exact same (Hub.channel_add_of_ne capacity heq) (beq_false_of_ne (Ne.symm heq))
  | sent hid hopen hroom =>
      exact change_put hid (.sent rfl hopen hroom) fun id hne => beq_false_of_ne hne.symm
  | took hid hqueue =>
      exact change_put hid (.took rfl hqueue) fun id hne => beq_false_of_ne hne.symm
  | closed hid hopen =>
      exact change_put hid (.closed rfl) fun id hne => beq_false_of_ne hne.symm
  | @closedAgain i hclosed =>
      by_cases heq : id = i
      · subst heq
        have hsame : (u.channel id).close = u.channel id := by
          rw [Channel.close, ← hclosed]
        have hchange : Change id (.closed id) (u.channel id) (u.channel id).close := .closed rfl
        rw [hsame] at hchange
        exact hchange
      · exact same rfl (beq_false_of_ne (Ne.symm heq))
  | began arms =>
      exact same rfl rfl
  | watched _ =>
      exact change_watchers fun _ => rfl
  | unwatched _ =>
      exact change_watchers fun _ => rfl
  | rested _ =>
      exact same rfl rfl

/-- Channels are only added. -/
theorem channels_size_le
    (h : Effect p u e u') :
    u.channels.size ≤ u'.channels.size := by
  cases h with
  | none | closedAgain | began | rested =>
      exact Nat.le_refl _
  | made capacity =>
      rw [Hub.size_add]
      exact Nat.le_succ _
  | sent | took | closed | watched | unwatched =>
      exact Nat.le_of_eq Hub.size_put.symm

/-! ### Wakers -/

/-- Wakers are only added. -/
theorem wakers_size_le
    (h : Effect p u e u') :
    u.wakers.size ≤ u'.wakers.size := by
  cases h with
  | none | made | took | closedAgain | watched | unwatched =>
      exact Nat.le_refl _
  | sent | closed =>
      rw [Hub.wakers_size_wake]
      exact Nat.le_refl _
  | began arms =>
      simp [Hub.newWaker]
  | rested =>
      simp [Hub.rest]

/-- Only a select that leaves takes its waker off the lists. -/
theorem mem_watchers
    (h : Effect p u e u') {w : Nat}
    (hnot : ∀ arms rest how, p ≠ .selecting w arms (.leaving rest how))
    (hw : w ∈ (u.channel id).watchers) :
    w ∈ (u'.channel id).watchers := by
  cases h with
  | none | closedAgain | began | rested =>
      exact hw
  | made capacity =>
      by_cases heq : id = u.channels.size
      · rw [heq, Hub.channel_of_size_le (Nat.le_refl _)] at hw
        cases hw
      · rw [Hub.channel_add_of_ne capacity heq]
        exact hw
  | sent | took | closed =>
      exact Hub.mem_watchers_put hw fun hw => hw
  | watched hp =>
      exact Hub.mem_watchers_put hw fun hw => List.mem_append_left _ hw
  | @unwatched w' arms rest a how hp =>
      refine Hub.mem_watchers_put hw fun hw => List.mem_filter.mpr ⟨hw, ?_⟩
      refine bne_iff_ne.mpr ?_
      rintro rfl
      exact hnot _ _ _ hp

/-- Only a select makes its waker ready to be woken again. -/
theorem not_woken
    (h : Effect p u e u') {w : Nat}
    (hnot : ∀ arms phase, p ≠ .selecting w arms phase)
    (hw : u'.isWoken w = false) :
    u.isWoken w = false := by
  cases h with
  | none | made | took | closedAgain | watched | unwatched =>
      exact hw
  | sent | closed =>
      refine Bool.eq_false_iff.mpr fun hwoken => ?_
      rw [Bool.eq_false_iff] at hw
      exact hw ((Hub.isWoken_wake _).mpr (.inl hwoken))
  | began arms =>
      by_cases hlt : w < u.wakers.size
      · rw [← Hub.isWoken_newWaker hlt]
        exact hw
      · simp [Hub.isWoken, Array.getD, hlt]
  | @rested w' arms phase hp =>
      have hne : w ≠ w' := by
        rintro rfl
        exact hnot _ _ hp
      rw [← Hub.isWoken_rest_of_ne hne]
      exact hw

/-- A send and a closing wake whoever is on the list of the channel. -/
theorem woken
    (h : Effect p u e u') {w : Nat}
    (hw : w ∈ (u.channel id).watchers) (hlt : w < u.wakers.size)
    (he : (∃ v, e = .sent id v) ∨ e = .closed id ∧ (u.channel id).closed = false) :
    u'.isWoken w = true := by
  rcases he with ⟨v, rfl⟩ | ⟨rfl, hopen⟩
  · cases h with
    | none he =>
        simpa [Event.changes] using he id
    | sent =>
        exact (Hub.isWoken_wake _).mpr (.inr ⟨hw, hlt⟩)
  · cases h with
    | none he =>
        simpa [Event.changes] using he id
    | closed =>
        exact (Hub.isWoken_wake _).mpr (.inr ⟨hw, hlt⟩)
    | closedAgain hclosed =>
        rw [hopen] at hclosed
        cases hclosed

end Effect

/-! ### Threads -/

/-- A thread is where it was, or it slept and has been notified. -/
inductive Rouse (p : Pc α) : Pc α → Prop
  | same : Rouse p p
  | sender {id : Nat} {v : α} : p = .sending id v false → Rouse p (.sending id v true)
  | receiver {id : Nat} : p = .receiving id false → Rouse p (.receiving id true)

theorem Pc.of_notifySender?
    {id : Nat} {p p' : Pc α}
    (h : p.notifySender? id = some p') :
    ∃ v, p = .sending id v false ∧ p' = .sending id v true := by
  unfold notifySender? at h
  split at h
  · next id' v =>
      split at h
      · next heq =>
          cases h
          rw [heq]
          exact ⟨v, rfl, rfl⟩
      · cases h
  · cases h

theorem Pc.of_notifyReceiver?
    {id : Nat} {p p' : Pc α}
    (h : p.notifyReceiver? id = some p') :
    p = .receiving id false ∧ p' = .receiving id true := by
  unfold notifyReceiver? at h
  split at h
  · split at h
    · next heq =>
        cases h
        rw [heq]
        exact ⟨rfl, rfl⟩
    · cases h
  · cases h

theorem Rouse.of_notifySender?
    {id : Nat} {p p' : Pc α}
    (h : p.notifySender? id = some p') :
    Rouse p p' := by
  obtain ⟨v, hp, rfl⟩ := Pc.of_notifySender? h
  exact .sender hp

theorem Rouse.of_notifyReceiver?
    {id : Nat} {p p' : Pc α}
    (h : p.notifyReceiver? id = some p') :
    Rouse p p' := by
  obtain ⟨hp, rfl⟩ := Pc.of_notifyReceiver? h
  exact .receiver hp

/-- Who does not sleep at a channel cannot be notified. -/
theorem Rouse.eq_of_awake
    {p p' : Pc α}
    (h : Rouse p p')
    (hsend : ∀ id v, p ≠ .sending id v false) (hreceive : ∀ id, p ≠ .receiving id false) :
    p' = p := by
  cases h with
  | same =>
      rfl
  | sender hp =>
      exact absurd hp (hsend _ _)
  | receiver hp =>
      exact absurd hp (hreceive _)

/-- Nobody begins to sleep by being notified. -/
theorem Rouse.of_sending
    {p p' : Pc α} {id : Nat} {v : α}
    (h : Rouse p p') (hp : p' = .sending id v false) :
    p = .sending id v false := by
  cases h with
  | same =>
      exact hp
  | sender | receiver =>
      cases hp

theorem Rouse.of_receiving
    {p p' : Pc α} {id : Nat}
    (h : Rouse p p') (hp : p' = .receiving id false) :
    p = .receiving id false := by
  cases h with
  | same =>
      exact hp
  | sender | receiver =>
      cases hp

namespace Threads

variable {f f' : Threads α} {notify? : Pc α → Option (Pc α)}

theorem set_self
    (t : Nat) (p : Pc α) :
    f.set t p t = p := by
  simp [set]

theorem set_of_ne
    {t i : Nat} (p : Pc α) (hne : i ≠ t) :
    f.set t p i = f i := by
  simp [set, hne]

theorem NotifyOne.rouse
    (h : f.NotifyOne notify? f')
    (hnotify : ∀ {p p'}, notify? p = some p' → Rouse p p') (i : Nat) :
    Rouse (f i) (f' i) := by
  cases h with
  | nobody _ =>
      exact .same
  | @one j p hp =>
      by_cases heq : i = j
      · subst heq
        rw [set_self]
        exact hnotify hp
      · rw [set_of_ne _ heq]
        exact .same

/-- Who is awake is where it was set to. -/
theorem NotifyOne.own
    {t : Nat} {p : Pc α}
    (h : (f.set t p).NotifyOne notify? f')
    (hnotify : ∀ {p p'}, notify? p = some p' → Rouse p p')
    (hsend : ∀ id v, p ≠ .sending id v false) (hreceive : ∀ id, p ≠ .receiving id false) :
    f' t = p := by
  have hrouse := h.rouse hnotify t
  rw [set_self] at hrouse
  exact hrouse.eq_of_awake hsend hreceive

/-- Everybody who sleeps at a channel is notified. -/
theorem rouse_all
    (f : Threads α) (id i : Nat) :
    Rouse (f i) (((f.notifyAll (Pc.notifySender? id)).notifyAll (Pc.notifyReceiver? id)) i) := by
  simp only [notifyAll]
  cases hsender : (f i).notifySender? id with
  | some p =>
      obtain ⟨v, hp, rfl⟩ := Pc.of_notifySender? hsender
      exact .sender hp
  | none =>
      cases hreceiver : (f i).notifyReceiver? id with
      | some p =>
          obtain ⟨hp, rfl⟩ := Pc.of_notifyReceiver? hreceiver
          simpa [hreceiver] using Rouse.receiver hp
      | none =>
          simpa [hreceiver] using Rouse.same

/-- After that nobody sleeps there who has not been notified. -/
theorem all_notified
    (f : Threads α) (id i : Nat) :
    (∀ v, (f.notifyAll (Pc.notifySender? id)).notifyAll (Pc.notifyReceiver? id) i ≠
        .sending id v false) ∧
      (f.notifyAll (Pc.notifySender? id)).notifyAll (Pc.notifyReceiver? id) i ≠
        .receiving id false := by
  have hrouse := rouse_all f id i
  refine ⟨fun v hp => ?_, fun hp => ?_⟩
  · have hbefore := hrouse.of_sending hp
    simp [notifyAll, hbefore, Pc.notifySender?, Pc.notifyReceiver?] at hp
  · have hbefore := hrouse.of_receiving hp
    simp [notifyAll, hbefore, Pc.notifySender?, Pc.notifyReceiver?] at hp

end Threads

namespace Step

variable {s s' : State α} {t i : Nat} {e : Event α}

/-- What a step does to a channel. -/
theorem change
    (h : Step s t e s') (id : Nat) :
    Change id e (s.channel id) (s'.channel id) := by
  exact h.effect.change id

/-- A step may notify other threads, and does not move them otherwise. -/
theorem rouse
    (h : Step s t e s') (hne : i ≠ t) :
    Rouse (s.pc i) (s'.pc i) := by
  have hset (p : Pc α) : Rouse (s.pc i) (s.pc.set t p i) := by
    rw [Threads.set_of_ne p hne]
    exact .same
  have hnotify {notify? : Pc α → Option (Pc α)} {p : Pc α} {f : Threads α}
      (hone : (s.pc.set t p).NotifyOne notify? f)
      (hrouse : ∀ {p p'}, notify? p = some p' → Rouse p p') : Rouse (s.pc i) (f i) := by
    have hi := hone.rouse hrouse i
    rw [Threads.set_of_ne p hne] at hi
    exact hi
  cases h with
  | send _ _ _ hone =>
      exact hnotify hone .of_notifyReceiver?
  | receive _ _ _ hone | poll _ _ _ hone | take _ _ _ hone =>
      exact hnotify hone .of_notifySender?
  | close =>
      exact Threads.rouse_all s.pc _ i
  | make | refuse | sleepFull | finish | sleepEmpty | pollNone | closeAgain | begin | watch
  | watched | examine | choose | noneReady | takeNone | fireClosed | probe | alive | exhaust
  | sleep | wake | unwatch | select =>
      exact hset _

/-- The selects of other threads are where they were. -/
theorem selecting_iff
    (h : Step s t e s') (hne : i ≠ t) {w : Nat} {arms : List Channel.Arm} {phase : Phase α} :
    s'.pc i = .selecting w arms phase ↔ s.pc i = .selecting w arms phase := by
  have hrouse := h.rouse hne
  generalize s'.pc i = p at hrouse ⊢
  cases hrouse with
  | same =>
      exact Iff.rfl
  | sender hp | receiver hp =>
      simp [hp]

end Step

/-! ### Senders and receivers that sleep -/

/-- Where a thread is after its own step. -/
inductive Step.Own (s s' : State α) (p : Pc α) : Prop
  /-- It does not sleep at a channel. -/
  | awake : (∀ id v n, p ≠ .sending id v n) → (∀ id n, p ≠ .receiving id n) → Own s s' p
  /-- It has found an open channel full. -/
  | sender {id : Nat} {v : α} :
      p = .sending id v false → s'.hub = s.hub → (s.channel id).closed = false →
      (s.channel id).isFull = true → Own s s' p
  /-- It has found an open channel empty. -/
  | receiver {id : Nat} :
      p = .receiving id false → s'.hub = s.hub → (s.channel id).closed = false →
      (s.channel id).queue = [] → Own s s' p

theorem Step.own
    {s s' : State α} {t : Nat} {e : Event α}
    (h : Step s t e s') :
    Step.Own s s' (s'.pc t) := by
  have hset {p : Pc α} (u : Hub α) (hsend : ∀ id v n, p ≠ .sending id v n)
      (hreceive : ∀ id n, p ≠ .receiving id n) :
      Step.Own s (s.goTo t p u) ((s.goTo t p u).pc t) := by
    rw [show (s.goTo t p u).pc t = p from Threads.set_self t p]
    exact .awake hsend hreceive
  have hone {notify? : Pc α → Option (Pc α)} {p : Pc α} {f : Threads α} (u : Hub α)
      (hone : (s.pc.set t p).NotifyOne notify? f)
      (hrouse : ∀ {p p'}, notify? p = some p' → Rouse p p')
      (hsend : ∀ id v n, p ≠ .sending id v n) (hreceive : ∀ id n, p ≠ .receiving id n) :
      Step.Own s ⟨u, f⟩ (f t) := by
    rw [hone.own hrouse (fun id v => hsend id v false) fun id => hreceive id false]
    exact .awake hsend hreceive
  cases h with
  | sleepFull _ _ hsend =>
      obtain ⟨hopen, hfull⟩ := Hub.send_none hsend
      exact .sender (Threads.set_self t _) rfl hopen hfull
  | sleepEmpty _ _ hreceive =>
      obtain ⟨hempty, hopen⟩ := Hub.receive_none hreceive
      exact .receiver (Threads.set_self t _) rfl hopen hempty
  | send _ _ _ hnotify =>
      exact hone _ hnotify .of_notifyReceiver? (fun _ _ _ => by simp) fun _ _ => by simp
  | receive _ _ _ hnotify | poll _ _ _ hnotify | take _ _ _ hnotify =>
      exact hone _ hnotify .of_notifySender? (fun _ _ _ => by simp) fun _ _ => by simp
  | @close id hidle _ _ =>
      have hrouse := Threads.rouse_all s.pc id t
      rw [hidle] at hrouse
      have heq := hrouse.eq_of_awake (fun _ _ => by simp) fun _ => by simp
      refine .awake (fun id v n hp => ?_) fun id n hp => ?_
      · cases heq.symm.trans hp
      · cases heq.symm.trans hp
  | make | refuse | finish | pollNone | closeAgain | begin | watch | watched | examine | choose
  | noneReady | takeNone | fireClosed | probe | alive | exhaust | sleep | wake | unwatch | select =>
      exact hset _ (fun _ _ _ => by simp) fun _ _ => by simp

/-! ### Selects -/

/-- Whether the waker of a select is on the list of the channel of an arm. -/
def Phase.Registered (phase : Phase α) (a : Channel.Arm) : Prop :=
  match phase with
  | .watching rest => a ∉ rest
  | .leaving _ _ => False
  | _ => True

/-- How a thread comes to a phase of a select, and what becomes of the hub. -/
inductive SelectStep (u : Hub α) (w : Nat) (arms : List Channel.Arm) :
    Pc α → Event α → Phase α → Hub α → Prop
  | begin :
      w = u.wakers.size → (∀ a ∈ arms, a.channel < u.channels.size) →
      SelectStep u w arms .idle (.began arms) (.watching arms) u.newWaker.2
  | watch {a : Channel.Arm} {rest : List Channel.Arm} :
      SelectStep u w arms (.selecting w arms (.watching (a :: rest))) .quiet (.watching rest)
        (u.watch w a.channel)
  | scan {phase : Phase α} {u' : Hub α} :
      (∀ a, phase.Registered a) → u' = u ∨ u' = u.rest w →
      SelectStep u w arms (.selecting w arms phase) .quiet (.scanning 0 []) u'
  | examine {k : Nat} {ready : List Nat} {a : Channel.Arm} :
      arms[k]? = some a →
      SelectStep u w arms (.selecting w arms (.scanning k ready)) (.examined k)
        (.scanning (k + 1) (if a.isReady u.channels then ready ++ [k] else ready)) u
  | choose {k i : Nat} {ready : List Nat} :
      SelectStep u w arms (.selecting w arms (.scanning k ready)) .quiet (.firing i) u
  | noneReady {k : Nat} :
      arms[k]? = none →
      SelectStep u w arms (.selecting w arms (.scanning k [])) .quiet (.probing 0) u
  | take {i id : Nat} {v : α} {left : Channel.Readiness} {u' : Hub α} :
      arms[i]? = some (.receive id) →
      SelectStep u w arms (.selecting w arms (.firing i)) (.took id v left)
        (.leaving arms (.received i v)) u'
  | fireClosed {i id : Nat} :
      arms[i]? = some (.closed id) →
      SelectStep u w arms (.selecting w arms (.firing i)) .quiet (.leaving arms (.closed i)) u
  | probe {k : Nat} {a : Channel.Arm} :
      arms[k]? = some a →
      SelectStep u w arms (.selecting w arms (.probing k)) .quiet (.probing (k + 1)) u
  | alive {k : Nat} {a : Channel.Arm} :
      arms[k]? = some a → a.isDead u.channels = false →
      SelectStep u w arms (.selecting w arms (.probing k)) .quiet .waiting u
  | exhaust {k : Nat} :
      SelectStep u w arms (.selecting w arms (.probing k)) .quiet (.leaving arms .exhausted) u
  | sleep :
      SelectStep u w arms (.selecting w arms .waiting) .quiet .asleep u
  | unwatch {a : Channel.Arm} {rest : List Channel.Arm} {how : Channel.Selected α} {u' : Hub α} :
      SelectStep u w arms (.selecting w arms (.leaving (a :: rest) how)) .quiet
        (.leaving rest how) u'

/-- A select begins with a new waker and keeps it. -/
theorem SelectStep.new_or_kept
    {u u' : Hub α} {w : Nat} {arms : List Channel.Arm} {p : Pc α} {e : Event α} {phase : Phase α}
    (h : SelectStep u w arms p e phase u') :
    (w = u.wakers.size ∧ (∀ a ∈ arms, a.channel < u.channels.size) ∧ phase = .watching arms ∧
      u' = u.newWaker.2) ∨ ∃ phase, p = .selecting w arms phase := by
  cases h with
  | begin hw hexists =>
      exact .inl ⟨hw, hexists, rfl, rfl⟩
  | watch | scan | examine | choose | noneReady | take | fireClosed | probe | alive | exhaust
  | sleep | unwatch =>
      exact .inr ⟨_, rfl⟩

/-- What the thread of a select does. -/
theorem Step.selectStep
    {s s' : State α} {t : Nat} {e : Event α} {w : Nat} {arms : List Channel.Arm}
    {phase : Phase α}
    (h : Step s t e s') (hpc : s'.pc t = .selecting w arms phase) :
    SelectStep s.hub w arms (s.pc t) e phase s'.hub := by
  have hset {p : Pc α} (u : Hub α) (heq : (s.goTo t p u).pc t = .selecting w arms phase) :
      p = .selecting w arms phase := (Threads.set_self t p).symm.trans heq
  have hnotIdle {notify? : Pc α → Option (Pc α)} {f : Threads α}
      (hone : (s.pc.set t .idle).NotifyOne notify? f)
      (hrouse : ∀ {p p'}, notify? p = some p' → Rouse p p')
      (heq : f t = .selecting w arms phase) : False := by
    rw [hone.own hrouse (fun _ _ => by simp) fun _ => by simp] at heq
    cases heq
  cases h with
  | make | refuse | sleepFull | finish | sleepEmpty | pollNone | closeAgain | select =>
      cases hset _ hpc
  | send _ _ _ hone =>
      exact (hnotIdle hone .of_notifyReceiver? hpc).elim
  | receive _ _ _ hone | poll _ _ _ hone =>
      exact (hnotIdle hone .of_notifySender? hpc).elim
  | @close id hidle _ _ =>
      have hrouse := Threads.rouse_all s.pc id t
      rw [hidle] at hrouse
      have heq := hrouse.eq_of_awake (fun _ _ => by simp) fun _ => by simp
      cases heq.symm.trans hpc
  | begin arms hidle hexists =>
      cases hset _ hpc
      rw [hidle]
      exact .begin rfl hexists
  | watch hbefore =>
      cases hset _ hpc
      rw [hbefore]
      exact .watch
  | watched hbefore =>
      cases hset _ hpc
      rw [hbefore]
      exact .scan (fun a => List.not_mem_nil) (.inl rfl)
  | examine hbefore harm =>
      cases hset _ hpc
      rw [hbefore]
      exact .examine harm
  | choose hbefore _ _ =>
      cases hset _ hpc
      rw [hbefore]
      exact .choose
  | noneReady hbefore hend =>
      cases hset _ hpc
      rw [hbefore]
      exact .noneReady hend
  | take hbefore harm _ hone =>
      have heq := hone.own .of_notifySender? (fun _ _ => by simp) fun _ => by simp
      cases heq.symm.trans hpc
      rw [hbefore]
      exact .take harm
  | takeNone hbefore _ htry =>
      cases hset _ hpc
      rw [hbefore]
      exact .scan (fun a => trivial) (.inl (Hub.tryReceive_none htry).2)
  | fireClosed hbefore harm =>
      cases hset _ hpc
      rw [hbefore]
      exact .fireClosed harm
  | probe hbefore harm _ =>
      cases hset _ hpc
      rw [hbefore]
      exact .probe harm
  | alive hbefore harm halive =>
      cases hset _ hpc
      rw [hbefore]
      exact .alive harm halive
  | exhaust hbefore _ =>
      cases hset _ hpc
      rw [hbefore]
      exact .exhaust
  | sleep hbefore _ =>
      cases hset _ hpc
      rw [hbefore]
      exact .sleep
  | wake hbefore hphase _ =>
      cases hset _ hpc
      rw [hbefore]
      refine .scan (fun a => ?_) (.inr rfl)
      rcases hphase with rfl | rfl
      · trivial
      · trivial
  | unwatch hbefore =>
      cases hset _ hpc
      rw [hbefore]
      exact .unwatch

end Traffic
end ScriptEngine
