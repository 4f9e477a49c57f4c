import Mathlib.Data.Set.Card
import ScriptEngine.Proofs.Channels.Conservation

/-!
# No wakeup is lost

A send notifies one receiver only, and another receiver may come first and take the value.  Still
no receiver sleeps for good beside a value: as long as one sleeps un-notified, the queued values are
no more than the receivers that have been notified and are yet to go on.  Free slots and senders
stand to each other as values and receivers do.

**Turns.** A `Turn` says what a step does to those who sleep for something, to those who have been
notified, and to the amount of it.  Whoever is notified goes on to use it up, finds nothing, or
finds the channel closed, where nobody sleeps.

The count is kept by every turn, so it holds in every state that can be reached.
-/

namespace ScriptEngine

/-- The number of values that a channel with a capacity has room for. -/
def Channel.room {α : Type} (c : Channel α) : Nat := c.capacity.elim 0 (· - c.queue.length)

namespace Traffic

variable {α : Type}

namespace State

variable (s : State α) (id : Nat)

/-- The receivers that sleep at a channel and have not been notified. -/
def sleepingReceivers : Set Nat := {t | s.pc t = .receiving id false}

/-- The receivers of a channel that have been notified and have not yet gone on. -/
def notifiedReceivers : Set Nat := {t | s.pc t = .receiving id true}

/-- The senders that sleep at a channel and have not been notified. -/
def sleepingSenders : Set Nat := {t | ∃ v, s.pc t = .sending id v false}

/-- The senders of a channel that have been notified and have not yet gone on. -/
def notifiedSenders : Set Nat := {t | ∃ v, s.pc t = .sending id v true}

end State

/-! ### Turns -/

/-- What a step does to those who sleep, to those who were notified, and to the amount of what they
wait for. -/
inductive Turn (asleep notified asleep' notified' : Set Nat) (n n' : Nat) : Prop
  | still : asleep' ⊆ asleep → notified ⊆ notified' → n' ≤ n →
      Turn asleep notified asleep' notified' n n'
  /-- One who was notified uses up what it was notified of. -/
  | spent (t : Nat) : asleep' ⊆ asleep → notified ⊆ insert t notified' → n' + 1 ≤ n →
      Turn asleep notified asleep' notified' n n'
  /-- There is more by one, and one who slept is notified. -/
  | passed (t : Nat) : asleep' ⊆ asleep → t ∉ notified → insert t notified ⊆ notified' →
      n' ≤ n + 1 → Turn asleep notified asleep' notified' n n'
  | nothing : n' = 0 → Turn asleep notified asleep' notified' n n'
  | nobody : asleep' = ∅ → Turn asleep notified asleep' notified' n n'

/-- If somebody sleeps, then those who were notified are enough for all there is. -/
def Enough (asleep notified : Set Nat) (n : Nat) : Prop := asleep.Nonempty → n ≤ notified.encard

/-- A turn leaves enough notified. -/
theorem Turn.enough
    {asleep notified asleep' notified' : Set Nat} {n n' : Nat}
    (h : Turn asleep notified asleep' notified' n n')
    (henough : Enough asleep notified n) :
    Enough asleep' notified' n' := by
  intro hsleeps
  cases h with
  | still hasleep hnotified hn =>
      calc (n' : ℕ∞) ≤ n := by exact_mod_cast hn
        _ ≤ notified.encard := henough (hsleeps.mono hasleep)
        _ ≤ notified'.encard := Set.encard_le_encard hnotified
  | spent t hasleep hnotified hn =>
      have hle : ((n' + 1 : ℕ) : ℕ∞) ≤ notified'.encard + 1 := by
        calc ((n' + 1 : ℕ) : ℕ∞) ≤ n := by exact_mod_cast hn
          _ ≤ notified.encard := henough (hsleeps.mono hasleep)
          _ ≤ (insert t notified').encard := Set.encard_le_encard hnotified
          _ ≤ notified'.encard + 1 := Set.encard_insert_le notified' t
      rw [Nat.cast_succ] at hle
      exact (ENat.add_le_add_iff_right ENat.one_ne_top).mp hle
  | passed t hasleep hnew hnotified hn =>
      calc (n' : ℕ∞) ≤ ((n + 1 : ℕ) : ℕ∞) := by exact_mod_cast hn
        _ = n + 1 := Nat.cast_succ n
        _ ≤ notified.encard + 1 := by
            gcongr
            exact henough (hsleeps.mono hasleep)
        _ = (insert t notified).encard := (Set.encard_insert_of_notMem hnew).symm
        _ ≤ notified'.encard := Set.encard_le_encard hnotified
  | nothing hn =>
      rw [hn]
      exact zero_le
  | nobody hnobody =>
      exact absurd hsleeps (hnobody ▸ Set.not_nonempty_empty)

/-! ### Queued values and free slots -/

namespace Change

variable {id : Nat} {e : Event α} {c c' : Channel α}

/-- Only a send makes a queue longer. -/
theorem length_le
    (h : Change id e c c')
    (hsend : ∀ v, e ≠ .sent id v) :
    c'.queue.length ≤ c.queue.length := by
  cases h with
  | none | closed =>
      exact Nat.le_refl _
  | made =>
      exact Nat.zero_le _
  | @sent v he =>
      exact absurd he (hsend v)
  | took _ hqueue =>
      rw [hqueue]
      exact Nat.le_succ _

/-- A send makes a queue longer by one value. -/
theorem length_le_succ
    (h : Change id e c c') :
    c'.queue.length ≤ c.queue.length + 1 := by
  cases h with
  | none | closed =>
      exact Nat.le_succ _
  | made =>
      exact Nat.zero_le _
  | sent =>
      simp
  | took _ hqueue =>
      rw [hqueue]
      exact Nat.le_add_right_of_le (Nat.le_succ _)

/-- Only a take makes room, in a channel that had a capacity before. -/
theorem room_le
    (h : Change id e c c')
    (htake : ∀ v left, e ≠ .took id v left) (hmade : c.capacity.isSome) :
    c'.room ≤ c.room := by
  cases h with
  | none | closed =>
      exact Nat.le_refl _
  | made _ hempty =>
      subst hempty
      cases hmade
  | sent =>
      obtain ⟨n, hn⟩ := Option.isSome_iff_exists.mp hmade
      simp only [Channel.room, hn, Option.elim_some, List.length_append, List.length_singleton]
      omega
  | took he =>
      exact absurd he (htake _ _)

/-- A take makes room for one value. -/
theorem room_le_succ
    (h : Change id e c c') (hmade : c.capacity.isSome) :
    c'.room ≤ c.room + 1 := by
  obtain ⟨n, hn⟩ := Option.isSome_iff_exists.mp hmade
  cases h with
  | none | closed =>
      exact Nat.le_succ _
  | made _ hempty =>
      subst hempty
      cases hmade
  | sent =>
      simp only [Channel.room, hn, Option.elim_some, List.length_append, List.length_singleton]
      omega
  | took _ hqueue =>
      simp only [Channel.room, hn, Option.elim_some, hqueue, List.length_cons]
      omega

/-- A channel that has a capacity keeps it. -/
theorem capacity_isSome
    (h : Change id e c c') (hc : c.capacity.isSome) :
    c'.capacity.isSome := by
  obtain ⟨n, hn⟩ := Option.isSome_iff_exists.mp hc
  rw [h.capacity hn]
  rfl

end Change

/-- There is no room in a full channel. -/
theorem room_of_isFull
    {c : Channel α}
    (hfull : c.isFull = true) :
    c.room = 0 ∧ c.capacity.isSome := by
  unfold Channel.isFull at hfull
  cases hcapacity : c.capacity with
  | none =>
      simp [hcapacity] at hfull
  | some n =>
      have hle : n ≤ c.queue.length := by
        simpa [hcapacity] using hfull
      exact ⟨by simpa [Channel.room, hcapacity] using Nat.sub_eq_zero_of_le hle, rfl⟩

/-! ### Receivers -/

namespace Step

variable {s s' : State α} {t id : Nat} {e : Event α}

/-- Who has been notified as a receiver takes a value or finds none. -/
theorem of_notifiedReceiver
    (h : Step s t e s') (hpc : s.pc t = .receiving id true) :
    (s'.channel id).queue.length + 1 ≤ (s.channel id).queue.length ∨
      (s'.channel id).queue.length = 0 := by
  have hasks {i : Nat} (ha : (s.pc t).Asks i) : i = id := by
    rcases ha with hidle | hreceiving
    · cases hpc.symm.trans hidle
    · cases hpc.symm.trans hreceiving
      rfl
  have hoffers {i : Nat} {v : α} (ho : (s.pc t).Offers i v) : False := by
    rcases ho with hidle | hsending
    · cases hpc.symm.trans hidle
    · cases hpc.symm.trans hsending
  cases h with
  | receive ha _ hreceive _ =>
      obtain rfl := hasks ha
      obtain ⟨rest, hqueue, rfl⟩ := Hub.receive_some hreceive
      left
      rw [State.channel, State.channel, hqueue, Hub.channel_put_self (exists_of_queue hqueue)]
      exact Nat.le_refl _
  | finish ha _ hreceive =>
      obtain rfl := hasks ha
      obtain ⟨hempty, -, rfl⟩ := Hub.receive_closed hreceive
      right
      rw [State.channel, State.goTo, hempty]
      rfl
  | sleepEmpty ha _ hreceive =>
      obtain rfl := hasks ha
      right
      rw [State.channel, State.goTo, (Hub.receive_none hreceive).1]
      rfl
  | send ho | refuse ho | sleepFull ho =>
      exact (hoffers ho).elim
  | make _ hother | poll hother | pollNone hother | close hother | closeAgain hother
  | begin _ hother | watch hother | watched hother | examine hother | choose hother
  | noneReady hother | take hother | takeNone hother | fireClosed hother | probe hother
  | alive hother | exhaust hother | sleep hother | wake hother | unwatch hother
  | select hother =>
      cases hpc.symm.trans hother

/-- A receiver that was notified stays so until it goes on. -/
theorem notifiedReceivers_subset
    (h : Step s t e s') (id : Nat) :
    s.notifiedReceivers id ⊆ insert t (s'.notifiedReceivers id) := by
  intro i hi
  by_cases hit : i = t
  · exact .inl hit
  · right
    have hi' : s.pc i = .receiving id true := hi
    have hrouse := h.rouse hit
    rw [hi'] at hrouse
    exact hrouse.eq_of_awake (fun _ _ => by simp) fun _ => by simp

/-- Who begins to sleep as a receiver has found an open channel empty. -/
theorem sleepingReceivers_subset
    (h : Step s t e s') (id : Nat) :
    s'.sleepingReceivers id ⊆ s.sleepingReceivers id ∨
      (s'.channel id).queue.length = 0 := by
  by_cases hpc : s'.pc t = .receiving id false
  · right
    cases h.own with
    | awake _ hreceive =>
        exact absurd hpc (hreceive id false)
    | sender hsending =>
        cases hpc.symm.trans hsending
    | receiver hreceiving hhub _ hempty =>
        cases hpc.symm.trans hreceiving
        rw [State.channel, hhub]
        exact List.length_eq_zero_iff.mpr hempty
  · left
    intro i hi
    have hne : i ≠ t := by
      rintro rfl
      exact hpc hi
    exact (h.rouse hne).of_receiving hi

/-- A send notifies a receiver that sleeps, if there is one. -/
theorem turn_of_sent
    {v : α}
    (h : Step s t (.sent id v) s') :
    Turn (s.sleepingReceivers id) (s.notifiedReceivers id) (s'.sleepingReceivers id)
      (s'.notifiedReceivers id) (s.channel id).queue.length (s'.channel id).queue.length := by
  have hlength := (h.change id).length_le_succ
  have hsleeping := h.sleepingReceivers_subset id
  have hnotified := h.notifiedReceivers_subset id
  cases h with
  | @send _ _ u f ho hexists hsend hone =>
      have hawake : s.pc t ≠ .receiving id true := by
        rcases ho with hidle | hsending
        · simp [hidle]
        · simp [hsending]
      cases hone with
      | nobody hnone =>
          refine .nobody (Set.eq_empty_iff_forall_notMem.mpr fun i hi => ?_)
          have hi' : s.pc.set t .idle i = .receiving id false := hi
          have hnone' := hnone i
          rw [hi'] at hnone'
          simp [Pc.notifyReceiver?] at hnone'
      | @one i p hp =>
          obtain ⟨hi, rfl⟩ := Pc.of_notifyReceiver? hp
          have hne : i ≠ t := by
            rintro rfl
            rw [Threads.set_self] at hi
            cases hi
          rw [Threads.set_of_ne _ hne] at hi
          rcases hsleeping with hsleeping | hempty
          · refine .passed i hsleeping (fun hmem => ?_) ?_ hlength
            · cases hi.symm.trans hmem
            · refine Set.insert_subset (Threads.set_self i _) fun j hj => ?_
              rcases hnotified hj with rfl | hj'
              · exact absurd hj hawake
              · exact hj'
          · exact .nothing hempty

/-- What a step does to the receivers of a channel and to its values. -/
theorem turnOfReceivers
    (h : Step s t e s') (id : Nat) :
    Turn (s.sleepingReceivers id) (s.notifiedReceivers id) (s'.sleepingReceivers id)
      (s'.notifiedReceivers id) (s.channel id).queue.length (s'.channel id).queue.length := by
  rcases h.sleepingReceivers_subset id with hsleeping | hempty
  · have hnotified := h.notifiedReceivers_subset id
    by_cases hpc : s.pc t = .receiving id true
    · rcases h.of_notifiedReceiver hpc with hless | hempty
      · exact .spent t hsleeping hnotified hless
      · exact .nothing hempty
    · by_cases hsent : ∃ v, e = .sent id v
      · obtain ⟨v, rfl⟩ := hsent
        exact h.turn_of_sent
      · refine .still hsleeping (fun i hi => ?_)
          ((h.change id).length_le fun v he => hsent ⟨v, he⟩)
        rcases hnotified hi with rfl | hi'
        · exact absurd hi hpc
        · exact hi'
  · exact .nothing hempty

/-! ### Senders -/

/-- Who has been notified as a sender uses a slot, finds none, or is refused. -/
theorem of_notifiedSender
    {v : α}
    (h : Step s t e s') (hpc : s.pc t = .sending id v true)
    (hcapacity : (s.channel id).capacity.isSome) :
    (s'.channel id).room + 1 ≤ (s.channel id).room ∨ (s'.channel id).room = 0 ∨
      (s.channel id).closed = true := by
  have hoffers {i : Nat} {w : α} (ho : (s.pc t).Offers i w) : i = id := by
    rcases ho with hidle | hsending
    · cases hpc.symm.trans hidle
    · cases hpc.symm.trans hsending
      rfl
  have hasks {i : Nat} (ha : (s.pc t).Asks i) : False := by
    rcases ha with hidle | hreceiving
    · cases hpc.symm.trans hidle
    · cases hpc.symm.trans hreceiving
  cases h with
  | @send i _ _ _ ho hexists hsend _ =>
      have hi := hoffers ho
      subst hi
      obtain ⟨n, hn⟩ := Option.isSome_iff_exists.mp hcapacity
      have hn' : (s.hub.channel i).capacity = some n := hn
      obtain ⟨-, hroom, rfl⟩ := Hub.send_sent hsend
      have hlt : (s.hub.channel i).queue.length < n := by
        simpa [Channel.isFull, hn'] using hroom
      left
      rw [State.channel, State.channel, Hub.channel_wake, Hub.channel_put_self hexists]
      simp only [Channel.room, hn', Option.elim_some, List.length_append, List.length_singleton]
      omega
  | refuse ho _ hsend =>
      obtain rfl := hoffers ho
      exact .inr (.inr (Hub.send_refused_iff.mp hsend).1)
  | sleepFull ho _ hsend =>
      obtain rfl := hoffers ho
      exact .inr (.inl (room_of_isFull (Hub.send_none hsend).2).1)
  | receive ha | finish ha | sleepEmpty ha =>
      exact (hasks ha).elim
  | make _ hother | poll hother | pollNone hother | close hother | closeAgain hother
  | begin _ hother | watch hother | watched hother | examine hother | choose hother
  | noneReady hother | take hother | takeNone hother | fireClosed hother | probe hother
  | alive hother | exhaust hother | sleep hother | wake hother | unwatch hother
  | select hother =>
      cases hpc.symm.trans hother

/-- A sender that was notified stays so until it goes on. -/
theorem notifiedSenders_subset
    (h : Step s t e s') (id : Nat) :
    s.notifiedSenders id ⊆ insert t (s'.notifiedSenders id) := by
  intro i hi
  by_cases hit : i = t
  · exact .inl hit
  · right
    obtain ⟨v, hi'⟩ := hi
    have hrouse := h.rouse hit
    rw [hi'] at hrouse
    exact ⟨v, hrouse.eq_of_awake (fun _ _ => by simp) fun _ => by simp⟩

/-- Who begins to sleep as a sender has found an open channel full. -/
theorem sleepingSenders_subset
    (h : Step s t e s') (id : Nat) :
    s'.sleepingSenders id ⊆ s.sleepingSenders id ∨
      (s'.channel id).room = 0 ∧ (s'.channel id).capacity.isSome := by
  by_cases hpc : ∃ v, s'.pc t = .sending id v false
  · right
    obtain ⟨v, hpc⟩ := hpc
    cases h.own with
    | awake hsend _ =>
        exact absurd hpc (hsend id v false)
    | sender hsending hhub _ hfull =>
        cases hpc.symm.trans hsending
        rw [State.channel, hhub]
        exact room_of_isFull hfull
    | receiver hreceiving =>
        cases hpc.symm.trans hreceiving
  · left
    rintro i ⟨v, hi⟩
    have hne : i ≠ t := by
      rintro rfl
      exact hpc ⟨v, hi⟩
    exact ⟨v, (h.rouse hne).of_sending hi⟩

/-- A take notifies a sender that sleeps, if there is one. -/
theorem notifyOne_of_took
    {v : α} {left : Channel.Readiness}
    (h : Step s t (.took id v left) s') :
    s'.sleepingSenders id = ∅ ∨
      ∃ i ∈ s.sleepingSenders id, i ∈ s'.notifiedSenders id := by
  have hone {p : Pc α} {f : Threads α} (hone : (s.pc.set t p).NotifyOne (Pc.notifySender? id) f)
      (hp : ∀ v, p ≠ .sending id v false) :
      {i | ∃ v, f i = .sending id v false} = ∅ ∨
        ∃ i ∈ s.sleepingSenders id, ∃ v, f i = .sending id v true := by
    cases hone with
    | nobody hnone =>
        refine .inl (Set.eq_empty_iff_forall_notMem.mpr ?_)
        rintro i ⟨v, hi⟩
        have hnone' := hnone i
        rw [hi] at hnone'
        simp [Pc.notifySender?] at hnone'
    | @one i p' hp' =>
        obtain ⟨v, hi, rfl⟩ := Pc.of_notifySender? hp'
        have hne : i ≠ t := by
          rintro rfl
          rw [Threads.set_self] at hi
          exact hp v hi
        rw [Threads.set_of_ne _ hne] at hi
        exact .inr ⟨i, ⟨v, hi⟩, v, Threads.set_self i _⟩
  cases h with
  | receive _ _ _ hnotify | poll _ _ _ hnotify | take _ _ _ hnotify =>
      exact hone hnotify fun v => by simp

/-- What a step does to the senders of a channel and to its free slots, where nobody sleeps at the
channel if it is closed or has no capacity. -/
theorem turnOfSenders
    (h : Step s t e s') (id : Nat)
    (hopen : (s.sleepingSenders id).Nonempty → (s.channel id).closed = false)
    (hcapacity : (s.sleepingSenders id).Nonempty → (s.channel id).capacity.isSome) :
    Turn (s.sleepingSenders id) (s.notifiedSenders id) (s'.sleepingSenders id)
      (s'.notifiedSenders id) (s.channel id).room (s'.channel id).room := by
  rcases h.sleepingSenders_subset id with hsleeping | ⟨hfull, -⟩
  · have hnotified := h.notifiedSenders_subset id
    rcases (s.sleepingSenders id).eq_empty_or_nonempty with hnobody | hsomebody
    · exact .nobody (Set.subset_eq_empty hsleeping hnobody)
    · have hcap := hcapacity hsomebody
      by_cases hpc : t ∈ s.notifiedSenders id
      · obtain ⟨v, hpc⟩ := hpc
        rcases h.of_notifiedSender hpc hcap with hless | hfull | hclosed
        · exact .spent t hsleeping hnotified hless
        · exact .nothing hfull
        · cases (hopen hsomebody).symm.trans hclosed
      · have hstay : s.notifiedSenders id ⊆ s'.notifiedSenders id := by
          intro i hi
          rcases hnotified hi with rfl | hi'
          · exact absurd hi hpc
          · exact hi'
        by_cases htook : ∃ v left, e = .took id v left
        · obtain ⟨v, left, rfl⟩ := htook
          rcases h.notifyOne_of_took with hnobody | ⟨i, ⟨w, hi⟩, hi'⟩
          · exact .nobody hnobody
          · refine .passed i hsleeping (fun ⟨w', hmem⟩ => ?_) (Set.insert_subset hi' hstay)
              ((h.change id).room_le_succ hcap)
            cases hi.symm.trans hmem
        · exact .still hsleeping hstay
            ((h.change id).room_le (fun v left he => htook ⟨v, left, he⟩) hcap)
  · exact .nothing hfull

end Step

/-! ### Runs -/

namespace Run

variable {log : Log α} {s : State α} {id : Nat}

/-- Who sleeps as a sender does so at a channel with a capacity. -/
theorem capacity_of_sleeping
    (h : Run log s) :
    (s.sleepingSenders id).Nonempty → (s.channel id).capacity.isSome := by
  induction h with
  | start =>
      rintro ⟨t, v, hpc⟩
      cases hpc
  | step _ hstep ih =>
      intro hsleeps
      rcases hstep.sleepingSenders_subset id with hsleeping | ⟨-, hcapacity⟩
      · exact (hstep.change id).capacity_isSome (ih (hsleeps.mono hsleeping))
      · exact hcapacity

/-- Who sleeps as a sender does so at an open channel. -/
theorem open_of_sleepingSenders
    (h : Run log s) (hsleeps : (s.sleepingSenders id).Nonempty) :
    (s.channel id).closed = false := by
  obtain ⟨t, v, hpc⟩ := hsleeps
  refine Bool.eq_false_iff.mpr fun hclosed => ?_
  exact (h.notified_of_closed hclosed t).1 v hpc

/-- Who sleeps as a receiver does so at an open channel. -/
theorem open_of_sleepingReceivers
    (h : Run log s) (hsleeps : (s.sleepingReceivers id).Nonempty) :
    (s.channel id).closed = false := by
  obtain ⟨t, hpc⟩ := hsleeps
  refine Bool.eq_false_iff.mpr fun hclosed => ?_
  exact (h.notified_of_closed hclosed t).2 hpc

theorem enoughReceivers
    (h : Run log s) :
    Enough (s.sleepingReceivers id) (s.notifiedReceivers id) (s.channel id).queue.length := by
  induction h with
  | start =>
      rintro ⟨t, hpc⟩
      cases hpc
  | step _ hstep ih =>
      exact (hstep.turnOfReceivers id).enough ih

theorem enoughSenders
    (h : Run log s) :
    Enough (s.sleepingSenders id) (s.notifiedSenders id) (s.channel id).room := by
  induction h with
  | start =>
      rintro ⟨t, v, hpc⟩
      cases hpc
  | step hrun hstep ih =>
      exact (hstep.turnOfSenders id hrun.open_of_sleepingSenders hrun.capacity_of_sleeping).enough
        ih

/-- All but finitely many threads are idle, so those who have been notified can be counted. -/
theorem finite_busy
    (h : Run log s) :
    {t | s.pc t ≠ .idle}.Finite := by
  induction h with
  | start =>
      simp [State.start]
  | @step log s s' t e _ hstep ih =>
      refine (ih.insert t).subset fun i hi => ?_
      by_cases hit : i = t
      · exact .inl hit
      · right
        intro hidle
        have hrouse := hstep.rouse hit
        rw [hidle] at hrouse
        exact hi (hrouse.eq_of_awake (fun _ _ => by simp) fun _ => by simp)

end Run

/-! ### The law -/

/-- Nobody sleeps at a channel that could serve it unless somebody else is on the way. -/
structure NoLostWakeup (s : State α) (id : Nat) : Prop where
  countable : (s.notifiedReceivers id).Finite ∧ (s.notifiedSenders id).Finite
  /-- Beside a receiver that sleeps there are no more values than receivers on the way. -/
  receivers : (s.sleepingReceivers id).Nonempty → (s.channel id).closed = false ∧
    (s.channel id).queue.length ≤ (s.notifiedReceivers id).ncard
  /-- Beside a sender that sleeps there are no more free slots than senders on the way. -/
  senders : (s.sleepingSenders id).Nonempty → (s.channel id).closed = false ∧
    ∃ n, (s.channel id).capacity = some n ∧ (s.channel id).queue.length ≤ n ∧
      n - (s.channel id).queue.length ≤ (s.notifiedSenders id).ncard
  value : (s.sleepingReceivers id).Nonempty → (s.channel id).queue ≠ [] →
    ∃ t, s.pc t = .receiving id true
  slot : (s.sleepingSenders id).Nonempty → (s.channel id).isFull = false →
    ∃ t v, s.pc t = .sending id v true

/-- In every state that threads can reach, and for every channel, no wakeup has been lost. -/
theorem Run.noLostWakeup
    {log : Log α} {s : State α}
    (h : Run log s) (id : Nat) :
    NoLostWakeup s id := by
  have hfinite : (s.notifiedReceivers id).Finite ∧ (s.notifiedSenders id).Finite := by
    refine ⟨h.finite_busy.subset fun t ht hidle => ?_, h.finite_busy.subset ?_⟩
    · cases hidle.symm.trans ht
    · rintro t ⟨v, ht⟩ hidle
      cases hidle.symm.trans ht
  have hreceivers (hsleeps : (s.sleepingReceivers id).Nonempty) :
      (s.channel id).queue.length ≤ (s.notifiedReceivers id).ncard := by
    have henough := h.enoughReceivers hsleeps
    rw [← hfinite.1.cast_ncard_eq] at henough
    exact_mod_cast henough
  have hsenders (hsleeps : (s.sleepingSenders id).Nonempty) :
      (s.channel id).room ≤ (s.notifiedSenders id).ncard := by
    have henough := h.enoughSenders hsleeps
    rw [← hfinite.2.cast_ncard_eq] at henough
    exact_mod_cast henough
  refine
    { countable := hfinite
      receivers := fun hsleeps => ⟨h.open_of_sleepingReceivers hsleeps, hreceivers hsleeps⟩
      senders := fun hsleeps => ⟨h.open_of_sleepingSenders hsleeps, ?_⟩
      value := fun hsleeps hqueue => ?_
      slot := fun hsleeps hroom => ?_ }
  · obtain ⟨n, hn⟩ := Option.isSome_iff_exists.mp (h.capacity_of_sleeping hsleeps)
    have hle := hsenders hsleeps
    simp only [Channel.room, hn, Option.elim_some] at hle
    exact ⟨n, hn, h.fits id n hn, hle⟩
  · have hpos := (List.length_pos_iff.mpr hqueue).trans_le (hreceivers hsleeps)
    exact (Set.ncard_pos hfinite.1).mp hpos
  · obtain ⟨n, hn⟩ := Option.isSome_iff_exists.mp (h.capacity_of_sleeping hsleeps)
    have hlt : (s.channel id).queue.length < n := by
      simpa [Channel.isFull, hn] using hroom
    have hpos : 0 < (s.channel id).room := by
      simpa [Channel.room, hn] using hlt
    exact (Set.ncard_pos hfinite.2).mp (hpos.trans_le (hsenders hsleeps))

/-- Two threads sleep at an empty channel; a value that is sent wakes one of them, and the other
sleeps on. -/
theorem noLostWakeup_twoReceivers :
    ∃ (log : Log Nat) (s : State Nat), Run log s ∧ NoLostWakeup s 0 ∧
      (s.channel 0).queue = [7] ∧ s.pc 1 = .receiving 0 true ∧ s.pc 2 = .receiving 0 false := by
  have h₁ := (Run.start : Run ([] : Log Nat) _).step (.make (t := 0) none rfl)
  have h₂ := h₁.step (.sleepEmpty (t := 1) (.inl rfl) Nat.zero_lt_one rfl)
  have h₃ := h₂.step (.sleepEmpty (t := 2) (.inl rfl) Nat.zero_lt_one rfl)
  have h₄ := h₃.step (.send (t := 0) (v := 7) (.inl rfl) Nat.zero_lt_one rfl
    (.one (i := 1) rfl))
  exact ⟨_, _, h₄, h₄.noLostWakeup 0, rfl, rfl, rfl⟩

end Traffic
end ScriptEngine
