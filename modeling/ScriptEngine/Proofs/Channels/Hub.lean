import ScriptEngine.Channel

/-!
# Operations of a hub

What each operation of a `Hub` does to a channel and to a waker.

**Channels.** An operation concerns one channel; `put` is the only way to change one.

**Wakers.** Sends and closings wake every waker on the list of their channel; nothing else wakes one.
-/

namespace ScriptEngine
namespace Hub

variable {α : Type} {u u' : Hub α} {id id' w w' : Nat} {c : Channel α} {v : α}

/-! ### Channels -/

theorem channel_put_self
    (hid : id < u.channels.size) :
    (u.put id c).channel id = c := by
  simp [put, channel, Array.getD, hid]

theorem channel_put_of_ne
    (hne : id' ≠ id) :
    (u.put id c).channel id' = u.channel id' := by
  simp only [put, channel, Array.getD_eq_getD_getElem?]
  rw [Array.getElem?_setIfInBounds_ne hne.symm]

/-- There is nothing to replace at a number of no channel. -/
theorem put_of_size_le
    (hid : u.channels.size ≤ id) :
    u.put id c = u := by
  simp only [put, Array.setIfInBounds, dif_neg (Nat.not_lt.mpr hid)]

@[simp] theorem size_put :
    (u.put id c).channels.size = u.channels.size := by
  simp [put]

@[simp] theorem channel_wake
    (ws : List Nat) :
    (u.wake ws).channel id = u.channel id := by
  rfl

@[simp] theorem channel_rest :
    (u.rest w).channel id = u.channel id := by
  rfl

@[simp] theorem channel_newWaker :
    u.newWaker.2.channel id = u.channel id := by
  rfl

/-- A number of no channel stands for an open and empty one. -/
theorem channel_of_size_le
    (hid : u.channels.size ≤ id) :
    u.channel id = ⟨none, [], false, []⟩ := by
  simp only [channel, Array.getD_eq_getD_getElem?, Array.getElem?_eq_none hid]
  rfl

theorem channel_add_self
    (capacity : Option Nat) :
    (u.add capacity).2.channel u.channels.size = .ofCapacity capacity := by
  simp [add, channel]

theorem channel_add_of_ne
    (capacity : Option Nat) (hne : id ≠ u.channels.size) :
    (u.add capacity).2.channel id = u.channel id := by
  simp only [add, channel, Array.getD_eq_getD_getElem?, Array.getElem?_push, if_neg hne]

@[simp] theorem size_add
    (capacity : Option Nat) :
    (u.add capacity).2.channels.size = u.channels.size + 1 := by
  simp [add]

/-- A channel that exists is the one that an arm looks at. -/
theorem getElem?_channels
    (hid : id < u.channels.size) :
    u.channels[id]? = some (u.channel id) := by
  simp [channel, Array.getD, hid]

/-- A receive arm is ready if its channel holds a value. -/
theorem isReady_receive
    (hid : id < u.channels.size) :
    (Channel.Arm.receive id).isReady u.channels = ((u.channel id).readiness == .value) := by
  rw [Channel.Arm.isReady, getElem?_channels hid, Option.any_some]

/-- A closed arm is ready if its channel is closed and empty. -/
theorem isReady_closed
    (hid : id < u.channels.size) :
    (Channel.Arm.closed id).isReady u.channels = ((u.channel id).readiness == .closed) := by
  rw [Channel.Arm.isReady, getElem?_channels hid, Option.any_some]

/-- A receive arm is dead if its channel is closed and empty. -/
theorem isDead_receive
    (hid : id < u.channels.size) :
    (Channel.Arm.receive id).isDead u.channels = ((u.channel id).readiness == .closed) := by
  rw [Channel.Arm.isDead, getElem?_channels hid, Option.any_some]

/-! ### Wakers -/

/-- A waker stays on the lists when a channel is replaced by one that keeps it. -/
theorem mem_watchers_put
    (hw : w ∈ (u.channel id).watchers)
    (hc : w ∈ (u.channel id').watchers → w ∈ c.watchers) :
    w ∈ ((u.put id' c).channel id).watchers := by
  by_cases heq : id = id'
  · subst heq
    by_cases hid : id < u.channels.size
    · rw [channel_put_self hid]
      exact hc hw
    · rw [put_of_size_le (Nat.le_of_not_lt hid)]
      exact hw
  · rw [channel_put_of_ne heq]
    exact hw

@[simp] theorem isWoken_put :
    (u.put id c).isWoken w = u.isWoken w := by
  rfl

/-- Who is woken was woken before or is among those that are woken now. -/
theorem isWoken_wake
    (ws : List Nat) :
    (u.wake ws).isWoken w = true ↔ u.isWoken w = true ∨ w ∈ ws ∧ w < u.wakers.size := by
  have hfold (a : Array Bool) :
      ((ws.foldl (fun a w => a.setIfInBounds w true) a).getD w false = true ↔
        a.getD w false = true ∨ w ∈ ws ∧ w < a.size) := by
    induction ws generalizing a with
    | nil =>
        simp
    | cons w₀ ws ih =>
        rw [List.foldl_cons, ih]
        simp only [Array.getD_eq_getD_getElem?, Array.getElem?_setIfInBounds,
          Array.size_setIfInBounds, List.mem_cons]
        by_cases heq : w₀ = w
        · subst heq
          by_cases hlt : w₀ < a.size
          · simp [hlt]
          · simp [hlt]
        · simp [heq, Ne.symm heq]
  exact hfold u.wakers

/-- Only the waker that is made ready again is not woken any more. -/
theorem isWoken_rest_of_ne
    (hne : w ≠ w') :
    (u.rest w').isWoken w = u.isWoken w := by
  simp only [rest, isWoken, Array.getD_eq_getD_getElem?]
  rw [Array.getElem?_setIfInBounds_ne hne.symm]

theorem isWoken_newWaker
    (hw : w < u.wakers.size) :
    u.newWaker.2.isWoken w = u.isWoken w := by
  simp only [newWaker, isWoken, Array.getD_eq_getD_getElem?, Array.getElem?_push,
    if_neg (Nat.ne_of_lt hw)]

@[simp] theorem wakers_size_wake
    (ws : List Nat) :
    (u.wake ws).wakers.size = u.wakers.size := by
  have hfold (a : Array Bool) :
      (ws.foldl (fun a w => a.setIfInBounds w true) a).size = a.size := by
    induction ws generalizing a with
    | nil =>
        rfl
    | cons w₀ ws ih =>
        rw [List.foldl_cons, ih, Array.size_setIfInBounds]
  exact hfold u.wakers

/-! ### Operations -/

/-- A value that is sent is added to an open channel that is not full, and wakes who watches. -/
theorem send_sent
    (hrun : u.send id v = some (true, u')) :
    (u.channel id).closed = false ∧ (u.channel id).isFull = false ∧
      u' = (u.put id { u.channel id with queue := (u.channel id).queue ++ [v] }).wake
        (u.channel id).watchers := by
  unfold send Channel.send at hrun
  cases hclosed : (u.channel id).closed with
  | true =>
      simp [hclosed] at hrun
  | false =>
      cases hfull : (u.channel id).isFull with
      | true =>
          simp [hclosed, hfull] at hrun
      | false =>
          simp only [hclosed, hfull, Bool.false_eq_true, if_false, Option.some.injEq,
            Prod.mk.injEq, true_and] at hrun
          refine ⟨rfl, rfl, ?_⟩
          rw [← hrun, ← hclosed]

/-- A send is refused just by a closed channel. -/
theorem send_refused_iff :
    u.send id v = some (false, u') ↔ (u.channel id).closed = true ∧ u' = u := by
  unfold send Channel.send
  cases hclosed : (u.channel id).closed with
  | true =>
      simp [eq_comm]
  | false =>
      cases hfull : (u.channel id).isFull with
      | true =>
          simp
      | false =>
          simp

/-- A send waits for an open channel that is full. -/
theorem send_none
    (hrun : u.send id v = none) :
    (u.channel id).closed = false ∧ (u.channel id).isFull = true := by
  unfold send Channel.send at hrun
  cases hclosed : (u.channel id).closed with
  | true =>
      simp [hclosed] at hrun
  | false =>
      cases hfull : (u.channel id).isFull with
      | true =>
          exact ⟨rfl, rfl⟩
      | false =>
          simp [hclosed, hfull] at hrun

/-- What is taken is the oldest value. -/
theorem tryReceive_some
    (hrun : u.tryReceive id = (some v, u')) :
    ∃ rest, (u.channel id).queue = v :: rest ∧
      u' = u.put id { u.channel id with queue := rest } := by
  unfold tryReceive Channel.tryReceive at hrun
  cases hqueue : (u.channel id).queue with
  | nil =>
      simp [hqueue] at hrun
  | cons v₀ rest =>
      simp only [hqueue, Prod.mk.injEq, Option.some.injEq] at hrun
      obtain ⟨rfl, rfl⟩ := hrun
      exact ⟨rest, rfl, rfl⟩

theorem tryReceive_none
    (hrun : u.tryReceive id = (none, u')) :
    (u.channel id).queue = [] ∧ u' = u := by
  unfold tryReceive Channel.tryReceive at hrun
  cases hqueue : (u.channel id).queue with
  | nil =>
      simp only [hqueue, Prod.mk.injEq, true_and] at hrun
      exact ⟨rfl, hrun.symm⟩
  | cons v₀ rest =>
      simp [hqueue] at hrun

/-- What is received is the oldest value. -/
theorem receive_some
    (hrun : u.receive id = some (some v, u')) :
    ∃ rest, (u.channel id).queue = v :: rest ∧
      u' = u.put id { u.channel id with queue := rest } := by
  unfold receive Channel.receive at hrun
  cases hqueue : (u.channel id).queue with
  | nil =>
      cases hclosed : (u.channel id).closed with
      | true =>
          simp [hqueue, hclosed] at hrun
      | false =>
          simp [hqueue, hclosed] at hrun
  | cons v₀ rest =>
      simp only [hqueue, Option.some.injEq, Prod.mk.injEq] at hrun
      obtain ⟨rfl, rfl⟩ := hrun
      exact ⟨rest, rfl, rfl⟩

/-- A receiver learns that a channel is closed when it is empty, too. -/
theorem receive_closed
    (hrun : u.receive id = some (none, u')) :
    (u.channel id).queue = [] ∧ (u.channel id).closed = true ∧ u' = u := by
  unfold receive Channel.receive at hrun
  cases hqueue : (u.channel id).queue with
  | nil =>
      cases hclosed : (u.channel id).closed with
      | true =>
          simp only [hqueue, hclosed, if_true, Option.some.injEq, Prod.mk.injEq, true_and] at hrun
          exact ⟨rfl, rfl, hrun.symm⟩
      | false =>
          simp [hqueue, hclosed] at hrun
  | cons v₀ rest =>
      simp [hqueue] at hrun

/-- A receiver waits for an open channel that is empty. -/
theorem receive_none
    (hrun : u.receive id = none) :
    (u.channel id).queue = [] ∧ (u.channel id).closed = false := by
  unfold receive Channel.receive at hrun
  cases hqueue : (u.channel id).queue with
  | nil =>
      cases hclosed : (u.channel id).closed with
      | true =>
          simp [hqueue, hclosed] at hrun
      | false =>
          exact ⟨rfl, rfl⟩
  | cons v₀ rest =>
      simp [hqueue] at hrun

theorem close_of_open
    (hopen : (u.channel id).closed = false) :
    u.close id = (u.put id (u.channel id).close).wake (u.channel id).watchers := by
  simp [close, hopen]

theorem close_of_closed
    (hclosed : (u.channel id).closed = true) :
    u.close id = u := by
  simp [close, hclosed]

end Hub
end ScriptEngine
