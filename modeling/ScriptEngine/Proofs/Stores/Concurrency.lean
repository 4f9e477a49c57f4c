import ScriptEngine.Proofs.Channels.Hub
import ScriptEngine.Proofs.Stores.Collections

/-!
# Threads, channels and futures that keep the stores

A channel with an element type checks what is sent.  Nothing else comes into a queue: what the other
operations leave in it has been there before (`Hub.Within`).
-/

namespace ScriptEngine

/-! ### Hubs -/

/-- No channel holds anything that it has not held. -/
structure Hub.Within (u u' : Hub Value) : Prop where
  size_le : u.channels.size ≤ u'.channels.size
  queue : ∀ id, ∀ v ∈ (u'.channel id).queue, v ∈ (u.channel id).queue

namespace Hub

variable {u u' u'' : Hub Value} {w : World} {id : Nat} {c : Channel Value} {v : Value}

/-- What is queued in a known hub is known. -/
theorem knows_iff : Knows w u ↔ ∀ id, ∀ v ∈ (u.channel id).queue, Knows w v := by
  constructor
  · intro hu id v hv
    refine Knows.of_mem ?_ hv
    exact Knows.array_getD (l := u.channels) hu (d := default) knows_nil id
  · intro hu
    refine knows_array.mpr fun c hc => knows_list.mpr fun v hv => ?_
    obtain ⟨id, hid⟩ := Array.mem_iff_getElem?.mp hc
    refine hu id v ?_
    rwa [channel, Array.getD_eq_getD_getElem?, hid]

namespace Within

theorem of_channels_eq
    (h : u'.channels = u.channels) :
    u.Within u' := by
  refine ⟨Nat.le_of_eq (by rw [h]), fun id v hv => ?_⟩
  rwa [channel, h] at hv

theorem refl
    (u : Hub Value) :
    u.Within u := by
  exact of_channels_eq rfl

theorem trans
    (h₁ : u.Within u') (h₂ : u'.Within u'') :
    u.Within u'' := by
  exact ⟨h₁.size_le.trans h₂.size_le, fun id v hv => h₁.queue id v (h₂.queue id v hv)⟩

/-- A channel is replaced by one that holds no more. -/
theorem put
    (hc : ∀ v ∈ c.queue, v ∈ (u.channel id).queue) :
    u.Within (u.put id c) := by
  refine ⟨?_, fun i v hv => ?_⟩
  · rw [Hub.put, Array.size_setIfInBounds]
  · rcases Nat.lt_or_ge id u.channels.size with hlt | hge
    · by_cases heq : i = id
      · subst heq
        rw [channel_put_self hlt] at hv
        exact hc v hv
      · rwa [channel_put_of_ne] at hv
        exact heq
    · rwa [put_of_size_le hge] at hv

theorem knows
    (h : u.Within u') (hu : Knows w u) :
    Knows w u' := by
  exact knows_iff.mpr fun id v hv => knows_iff.mp hu id v (h.queue id v hv)

end Within

/-! ### What the operations leave and give -/

theorem within_receive
    {r : Option Value × Hub Value} (h : u.receive id = some r) :
    u.Within r.2 ∧ ∀ v, r.1 = some v → v ∈ (u.channel id).queue := by
  rw [receive, Channel.receive] at h
  split at h
  · next v c heq =>
      cases h
      split at heq
      · next v' rest hqueue =>
          cases heq
          refine ⟨.put fun x hx => ?_, fun x hx => ?_⟩
          · rw [hqueue]
            exact List.mem_cons_of_mem _ hx
          · cases hx
            rw [hqueue]
            exact List.mem_cons_self
      · split at heq <;> cases heq
  · cases h
    exact ⟨.refl u, fun x hx => by cases hx⟩
  · cases h

theorem within_tryReceive
    (u : Hub Value) (id : Nat) :
    u.Within (u.tryReceive id).2 ∧ ∀ v, (u.tryReceive id).1 = some v → v ∈ (u.channel id).queue := by
  rw [tryReceive, Channel.tryReceive]
  cases hqueue : (u.channel id).queue with
  | nil =>
      exact ⟨.refl u, fun x hx => by cases hx⟩
  | cons v rest =>
      refine ⟨.put fun x hx => ?_, fun x hx => ?_⟩
      · rw [hqueue]
        exact List.mem_cons_of_mem _ hx
      · cases hx
        exact List.mem_cons_self

theorem within_close
    (u : Hub Value) (id : Nat) :
    u.Within (u.close id) := by
  rw [close]
  split
  · exact .refl u
  · have hput : u.Within (u.put id (u.channel id).close) := .put fun v hv => hv
    exact hput.trans (.of_channels_eq rfl)

theorem within_watch
    (u : Hub Value) (waker id : Nat) :
    u.Within (u.watch waker id) := by
  exact .put fun v hv => hv

theorem within_unwatch
    (u : Hub Value) (waker id : Nat) :
    u.Within (u.unwatch waker id) := by
  exact .put fun v hv => hv

/-- A change for each arm of a select. -/
theorem within_foldl
    {f : Hub Value → Channel.Arm → Hub Value} (hf : ∀ u a, Within u (f u a)) (u : Hub Value)
    (arms : List Channel.Arm) :
    u.Within (arms.foldl f u) := by
  induction arms generalizing u with
  | nil =>
      exact .refl u
  | cons a rest ih =>
      exact (hf u a).trans (ih _)

/-- A select takes out no more than the value it gives. -/
theorem within_fireFirst?
    {arms : List Channel.Arm} {first : Nat} {r : Channel.Selected Value × Array (Channel Value)}
    (h : Channel.fireFirst? u.channels first arms = some r) :
    u.Within { u with channels := r.2 } ∧
      ∀ i v, r.1 = .received i v → ∃ id, v ∈ (u.channel id).queue := by
  induction arms generalizing first with
  | nil =>
      cases h
  | cons a rest ih =>
      rw [Channel.fireFirst?] at h
      split at h
      · cases a with
        | receive c =>
            obtain ⟨⟨v, c'⟩, htry, rfl⟩ := Option.map_eq_some_iff.mp h
            obtain ⟨found, hfound, htake⟩ := Option.bind_eq_some_iff.mp htry
            have hchannel : u.channel c = found := by
              rw [channel, Array.getD_eq_getD_getElem?, hfound, Option.getD_some]
            rw [Channel.tryReceive] at htake
            split at htake
            · next v' rest' hqueue =>
                cases htake
                refine ⟨.put fun x hx => ?_, fun i x hx => ⟨c, ?_⟩⟩
                · rw [hchannel, hqueue]
                  exact List.mem_cons_of_mem _ hx
                · cases hx
                  rw [hchannel, hqueue]
                  exact List.mem_cons_self
            · cases htake
        | closed c =>
            cases h
            exact ⟨.of_channels_eq rfl, fun i x hx => by cases hx⟩
      · exact ih h

theorem within_select?
    {arms : List Channel.Arm} {r : Channel.Selected Value × Hub Value}
    (h : u.select? arms = some r) :
    u.Within r.2 ∧ ∀ i v, r.1 = .received i v → ∃ id, v ∈ (u.channel id).queue := by
  obtain ⟨⟨s, cs⟩, hselect, rfl⟩ := Option.map_eq_some_iff.mp h
  rw [Channel.select?] at hselect
  split at hselect
  · next heq =>
      cases hselect
      exact within_fireFirst? heq
  · split at hselect
    · cases hselect
      exact ⟨.of_channels_eq rfl, fun i x hx => by cases hx⟩
    · cases hselect

/-- What a select gives is known in a known hub. -/
theorem knows_selected
    {arms : List Channel.Arm} {r : Channel.Selected Value × Hub Value} (hu : Knows w u)
    (h : u.select? arms = some r) :
    Knows w r.1 := by
  have hgiven := (within_select? h).2
  obtain ⟨s, u'⟩ := r
  cases s with
  | received i v =>
      obtain ⟨id, hv⟩ := hgiven i v rfl
      exact knows_iff.mp hu id v hv
  | closed i =>
      exact knows_closed
  | exhausted =>
      exact knows_exhausted

/-- A send adds no more than the value that is sent. -/
theorem mem_queue_send
    {r : Bool × Hub Value} {i : Nat} {x : Value} (h : u.send id v = some r)
    (hx : x ∈ (r.2.channel i).queue) :
    x ∈ (u.channel i).queue ∨ i = id ∧ x = v := by
  rw [send, Channel.send] at h
  split at h
  · next c heq =>
      cases h
      split at heq
      · cases heq
      split at heq
      · cases heq
      cases heq
      rw [channel_wake] at hx
      by_cases hi : i = id
      · subst hi
        rcases Nat.lt_or_ge i u.channels.size with hlt | hge
        · rw [channel_put_self hlt] at hx
          simpa using hx
        · rw [put_of_size_le hge] at hx
          exact .inl hx
      · rw [channel_put_of_ne hi] at hx
        exact .inl hx
  · cases h
    exact .inl hx
  · cases h

theorem size_send
    {r : Bool × Hub Value} (h : u.send id v = some r) :
    r.2.channels.size = u.channels.size := by
  rw [send] at h
  split at h
  · cases h
    exact size_put
  · cases h
    rfl
  · cases h

end Hub

/-- A path on which some values leave their channels. -/
theorem Path.hub
    {k : Hold} {w : World} {h : Heap} {u : Hub Value} (hu : h.hub.Within u) :
    Path k w h k w { h with hub := u } := by
  exact .one (.hub hu.size_le hu.knows fun id v hv => .inl (hu.queue id v hv))

theorem Fits.hub
    {w : World} {h : Heap} (hf : Fits w h) :
    Knows w h.hub := by
  exact (knows_heap.mp hf.known).2.2.2.2.2.1

variable {S : World} {E : Engine} {args : List Value} {v : Value}

namespace Keeps

/-! ### Threads -/

@[grind ←]
theorem awaitThread
    (id : Nat) :
    Keeps S (Builtin.awaitThread id) := by
  refine (await (Q := fun _ => True) fun k w h a h' _ hs hstep => ?_).andThen fun outcome => ?_
  · obtain ⟨outcome, houtcome, heq⟩ := Option.map_eq_some_iff.mp hstep
    cases heq
    have hknown := hs.fits.known.outcome id
    rw [houtcome] at hknown
    exact ⟨w, .refl, hknown, trivial⟩
  · split
    · exact pure (Knows.self S (Outcome.returned _)) trivial
    · exact throwValue (Knows.self S (Outcome.thrown _))
    · exact raise knows_fault

@[grind ←]
theorem startThread
    (body : List Stmt) (env : Env) :
    Keeps S (Builtin.startThread body env) := by
  refine quietly fun w h _ _ => ⟨?_, knows_vthread, trivial⟩
  have hthread : Quiet w { h with scopes := (h.scopes.snapshot env).2 }
      { h with scopes := (h.scopes.snapshot env).2, threads := h.threads.push none } :=
    .setThreads _ fun hh => Knows.push (knows_heap.mp hh).2.2.2.2.2.2.2.1 knows_none
  exact (Quiet.snapshot w h env).trans (hthread.trans (.queueJobs _ (by simp)))

@[grind ←]
theorem callThread
    (id : Nat) (name : String) :
    Keeps S (Builtin.callThread id name) := by
  unfold Builtin.callThread
  grind

/-! ### Channels -/

/-- A value is sent that obeys the type of the channel. -/
theorem sendValue
    {id : Nat} {element : Option TypeExpr} (hid : .channel id element ∈ S) (hv : Knows S v)
    (hobeys : ObeysOption v element []) :
    Keeps S (Builtin.sendValue id v) := by
  refine (await (Q := fun _ => True) fun k w h a h' hS hs hstep => ?_).skip fun sent => ?_
  · obtain ⟨r, hsend, heq⟩ := Option.map_eq_some_iff.mp hstep
    cases heq
    refine ⟨w, .one (.hub (Nat.le_of_eq (Hub.size_send hsend).symm) (fun hu => ?_) fun i x hx => ?_),
      knows_bool _, trivial⟩
    · refine Hub.knows_iff.mpr fun i x hx => ?_
      rcases Hub.mem_queue_send hsend hx with hold | ⟨-, rfl⟩
      · exact Hub.knows_iff.mp hu i x hold
      · exact hv.mono hS
    · rcases Hub.mem_queue_send hsend hx with hold | ⟨rfl, rfl⟩
      · exact .inl hold
      · refine .inr fun t ht => ?_
        rw [hs.fits.channels.eq ht (hS hid)]
        exact hobeys
  · exact ite (fun _ => fault _) fun _ => pure (knows_unit _) trivial

@[grind ←]
theorem receiveValue
    (id : Nat) :
    Keeps S (Builtin.receiveValue id) := by
  refine await fun k w h a h' _ hs hstep => ?_
  obtain ⟨r, hreceive, heq⟩ := Option.map_eq_some_iff.mp hstep
  cases heq
  obtain ⟨hwithin, hgiven⟩ := Hub.within_receive hreceive
  refine ⟨w, .hub hwithin, ?_, trivial⟩
  cases hr : r.1 with
  | none =>
      exact knows_none
  | some v =>
      exact Hub.knows_iff.mp hs.fits.hub id v (hgiven v hr)

@[grind ←]
theorem tryReceiveValue
    (id : Nat) :
    Keeps S (Builtin.tryReceiveValue id) := by
  refine change fun k w h _ hs => ?_
  obtain ⟨hwithin, hgiven⟩ := Hub.within_tryReceive h.hub id
  refine ⟨w, .hub hwithin, ?_, trivial⟩
  refine Knows.getD ?_ knows_vnil
  cases hr : (h.hub.tryReceive id).1 with
  | none =>
      exact knows_none
  | some v =>
      exact Hub.knows_iff.mp hs.fits.hub id v (hgiven v hr)

theorem tryArms
    (arms : List Channel.Arm) :
    Keeps S (Builtin.tryArms arms) := by
  refine change fun k w h _ hs => ?_
  split
  · next r hselect =>
      exact ⟨w, .hub (Hub.within_select? hselect).1, Hub.knows_selected hs.fits.hub hselect, trivial⟩
  · exact ⟨w, .refl, knows_none, trivial⟩

theorem awaitWaker
    (waker : Nat) :
    Keeps S (Builtin.awaitWaker waker) := by
  refine await fun k w h a h' _ hs hstep => ?_
  split at hstep
  · cases hstep
    exact ⟨w, .hub (.of_channels_eq rfl), knows_unit _, trivial⟩
  · cases hstep

theorem awaitArms
    (fuel waker : Nat) (arms : List Channel.Arm) :
    Keeps S (Builtin.awaitArms fuel waker arms) := by
  refine iterate fuel () fun _ => (tryArms arms).andThen fun r => ?_
  split
  · next r => exact pure (Knows.self S (some r)) trivial
  · exact (awaitWaker waker).skip fun _ => pure (knows_unit ()) trivial

/-- A select watches its channels while it waits. -/
theorem selectArm
    (fuel : Nat) (arms : List Channel.Arm) :
    Keeps S (Builtin.selectArm fuel arms) := by
  refine (change (Q := fun _ => True) fun k w h _ hs => ?_).skip fun waker => ?_
  · have hnew : h.hub.Within h.hub.newWaker.2 := .of_channels_eq rfl
    refine ⟨w, .hub (hnew.trans (Hub.within_foldl (fun u a => ?_) _ arms)), knows_nat _, trivial⟩
    exact Hub.within_watch u _ _
  · refine (awaitArms fuel waker arms).andThen fun selected => ?_
    refine (modify fun k w h _ _ => ⟨w, .hub (Hub.within_foldl (fun u a => ?_) _ arms)⟩).skip
      fun _ => pure (Knows.self _ _) trivial
    exact Hub.within_unwatch u _ _

theorem newChannel
    (element : Option TypeExpr) (capacity : Option Nat) :
    Keeps S (Eval.change fun h => h.newChannel element capacity) := by
  refine change fun k w h _ _ => ⟨_, .one (.openChannel (t := element) capacity), ?_, trivial⟩
  exact Set.subset_union_right

@[grind ←]
theorem makeChannel
    (typeArgs : List TypeExpr) (args : List Value) :
    Keeps S (Builtin.makeChannel typeArgs args) := by
  unfold Builtin.makeChannel
  dsimp only
  refine guarded _ (guarded _ ?_)
  split
  · exact newChannel _ _
  · refine look.skip fun h => (answer (Plain.knows _ _)).skip fun n => guarded _ ?_
    exact newChannel _ _

/-- A value is sent that has passed the check. -/
theorem obeysOption_of_messageFault?
    {h : Heap} {element : Option TypeExpr} (hnone : Builtin.messageFault? h element v = none) :
    ObeysOption v element [] := by
  intro t ht
  refine .of_conforms (h := h) ?_
  by_contra hnot
  simp [Builtin.messageFault?, ht, hnot] at hnone

@[grind ←]
theorem callChannel
    {id : Nat} {element : Option TypeExpr} (name : String) (hid : Knows S (.channel id element : Value))
    (hargs : Knows S args) :
    Keeps S (Builtin.callChannel id element name args) := by
  unfold Builtin.callChannel
  split
  · refine (answer (Plain.knows _ _)).skip fun _ => look.skip fun h => ?_
    refine (unlessFault _).bind fun _ hnone => more ?_ _
    refine (sendValue (knows_channel.mp hid) (Builtin.knows_argument hargs 0) ?_).skip fun _ => ?_
    · exact obeysOption_of_messageFault? hnone
    · exact pure knows_vnil trivial
  · refine (receiveValue id).andThen fun v => pure ?_ trivial
    exact (Knows.self S v).getD knows_vnil
  · exact tryReceiveValue id
  · refine (modify fun k w h _ _ => ⟨w, .hub (Hub.within_close h.hub id)⟩).skip fun _ => ?_
    exact pure knows_vnil trivial
  all_goals grind

/-! ### Futures -/

@[grind ←]
theorem settleFuture
    {s : Settlement} (id : Nat) (hs : Knows S s) :
    Keeps S (Builtin.settleFuture id s) := by
  exact quietly fun w h hS _ => ⟨.settle h id (hs.mono hS), knows_bool _, trivial⟩

@[grind ←]
theorem startAsync
    (hargs : Knows S args) :
    Keeps S (Builtin.startAsync args) := by
  refine (answer (Plain.knows _ _)).skip fun _ => ?_
  refine query (fun w h hS _ => Builtin.knows_firstCallback (hargs.mono hS) _) fun body => ?_
  refine quietly fun w h hS _ => ⟨?_, knows_vfuture, trivial⟩
  refine (Quiet.newFuture w h .promise).trans (.queueJobs _ ?_)
  simpa using (Knows.self S body).mono hS

@[grind ←]
theorem makePromise
    [Careful E] (hargs : Knows S args) :
    Keeps S (Builtin.makePromise E args) := by
  refine (answer (Plain.knows _ _)).skip fun _ => ?_
  refine query (fun w h hS _ => Builtin.knows_firstCallback (hargs.mono hS) _) fun executor => ?_
  refine (quietly (Q := fun _ => True) fun w h _ _ => ⟨.newFuture w h .promise, knows_nat _, trivial⟩).skip
    fun id => ?_
  refine (diverting ?_ fun e => ?_).skip fun _ => pure knows_vfuture trivial
  · refine (callback (Knows.self S executor) (by simp)).skip fun _ => pure (knows_unit _) trivial
  · refine (settleFuture id (Knows.self _ e)).skip fun _ => pure (knows_unit _) trivial

@[grind ←]
theorem makeCompletable
    (args : List Value) :
    Keeps S (Builtin.makeCompletable args) := by
  refine (answer (Plain.knows _ _)).skip fun _ => ?_
  exact quietly fun w h _ _ => ⟨.newFuture w h .completable, knows_vfuture, trivial⟩

@[grind ←]
theorem settledValue
    [Careful E] {s : Settlement} (hs : Knows S s) :
    Keeps S (Builtin.settledValue E s) := by
  cases s with
  | fulfilled v =>
      exact pure hs trivial
  | rejected e =>
      exact throwValue hs
  | cancelled =>
      exact throwNew _ _
  | pending =>
      exact pure knows_vnil trivial

@[grind ←]
theorem awaitFuture
    (id : Nat) :
    Keeps S (Builtin.awaitFuture id) := by
  refine await fun k w h a h' _ hs hstep => ?_
  split at hstep
  · cases hstep
    exact ⟨w, .refl, (knows_future.mp (hs.fits.known.future id)).1, trivial⟩
  · cases hstep

@[grind ←]
theorem awaitUntil
    (id time : Nat) :
    Keeps S (Builtin.awaitUntil id time) := by
  refine await fun k w h a h' _ hs hstep => ?_
  split at hstep
  · cases hstep
    exact ⟨w, .refl, (knows_future.mp (hs.fits.known.future id)).1, trivial⟩
  split at hstep
  · cases hstep
    exact ⟨w, .refl, knows_none, trivial⟩
  · cases hstep

@[grind ←]
theorem chainFuture
    {callee : Value} (id : Nat) (step : ChainStep) (hcallee : Knows S callee) :
    Keeps S (Builtin.chainFuture id step callee) := by
  refine quietly fun w h hS _ => ⟨?_, knows_vfuture, trivial⟩
  exact (Quiet.newFuture w h .promise).trans (.onSettle _ id (hcallee.mono hS))

@[grind ←]
theorem callFuture
    [Careful E] (id : Nat) (kind : FutureKind) (name : String) (hargs : Knows S args) :
    Keeps S (Builtin.callFuture E id kind name args) := by
  have hfirst := Builtin.knows_argument hargs 0
  have hchain (step : ChainStep) (name : String) : Keeps S (do
      Builtin.chainFuture id step
        (← Eval.ofExcept (Builtin.firstCallback (← Eval.heap) args name))) := by
    refine query (fun w h hS _ => Builtin.knows_firstCallback (hargs.mono hS) _) fun f => ?_
    exact chainFuture id step (Knows.self S f)
  have hget : Keeps S (do
      Eval.ofExcept (Builtin.takesExactly args 0)
      Builtin.settledValue E (← Builtin.awaitFuture id)) := by
    refine (answer (Plain.knows _ _)).skip fun _ => ?_
    exact (awaitFuture id).andThen fun s => settledValue (Knows.self S s)
  have hsettle {s : Settlement} (hs : Knows S s) : Keeps S (do
      Pure.pure (Value.bool (← Builtin.settleFuture id s))) := by
    exact (settleFuture id hs).skip fun _ => pure knows_vbool trivial
  unfold Builtin.callFuture
  dsimp only
  split
  · exact hchain _ _
  · exact hchain _ _
  · exact hchain _ _
  · exact hget
  · exact hget
  · refine look.skip fun h => (answer (Plain.knows _ _)).skip fun n => ?_
    refine (awaitUntil _ _).andThen fun s => ?_
    split
    · next s => exact settledValue (Knows.self S (some s))
    · exact throwNew _ _
  · exact (answer (Plain.knows _ _)).skip fun _ => hsettle hfirst
  · exact (answer (Plain.knows _ _)).skip fun _ => hsettle hfirst
  · exact hsettle knows_cancelled
  · refine look.skip fun h => ?_
    split
    · exact pure knows_vbool trivial
    · exact pure knows_vbool trivial
  all_goals grind

/-- What a raised signal tells is told by the settlement it makes. -/
theorem knows_rejection
    {s : Signal} (hs : Knows S s) :
    Knows S (Builtin.rejection s) := by
  cases s with
  | thrown e =>
      exact hs
  | fault f =>
      exact knows_vstr

theorem continueWith
    [Careful E] {k : Continuation} {settled : Settlement} (hk : Knows S k.callback)
    (hsettled : Knows S settled) :
    Keeps S (Builtin.continueWith E k settled) := by
  unfold Builtin.continueWith
  split
  · next v _ =>
      refine (callback hk (by simpa using hsettled)).andThen fun v => ?_
      exact pure (Knows.self S v) trivial
  · refine look.skip fun h => (callback hk (by simp)).andThen fun v => ?_
    exact pure (Knows.self S v) trivial
  · exact (callback hk knows_nil).skip fun _ => pure hsettled trivial
  · exact pure hsettled trivial

end Keeps
end ScriptEngine
