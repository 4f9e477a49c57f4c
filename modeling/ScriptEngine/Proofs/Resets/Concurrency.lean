import ScriptEngine.Proofs.Resets.Sequences

/-!
# Threads, channels and futures that overlook what is old

Threads meet in channels and futures.  What one of them waits for is recent if it came by it through
recent values, and so is all that it is given when the waiting ends.
-/

namespace ScriptEngine
namespace Oblivious

variable {t : Epoch} {E : Engine} {args : List Value} {v : Value} {id : Nat} {env : Env}

/-! ### Threads -/

theorem awaitThread
    (hid : t.threads ≤ id) :
    Oblivious t (Builtin.awaitThread id) (Recent t) := by
  refine (await (P := Recent t) (recent_waitThread.mpr hid) (.look fun h hh =>
    ⟨?_, fun outcome houtcome => ?_⟩)).bind fun outcome houtcome => ?_
  · rw [Heap.thread_forget hid]
  · exact hh.thread hid houtcome
  · cases outcome with
    | returned v =>
        exact pure houtcome
    | thrown e =>
        exact throwValue houtcome
    | faulted f =>
        exact raise recent_fault

/-- A thread gets a copy of all that a scope sees. -/
theorem startThread
    (henv : Recent t env) (body : List Stmt) :
    Oblivious t (Builtin.startThread body env) (Recent t) := by
  refine change fun h hh => ?_
  obtain ⟨hsame, hscopes, hcopy⟩ := Scopes.Renewed.snapshot hh.scopes henv
  have hjob : Recent t [Job.thread h.threads.size body (h.scopes.snapshot env).1] := by
    simpa using ⟨hh.threads.size, hcopy⟩
  refine ⟨?_, ?_, hh.threads.size⟩
  · simp only [Heap.scopes_forget, hsame]
    simp [Heap.forget, Memory.forget, forgetFirst_push hh.threads.size]
  · exact
      { hh with
        scopes := hscopes
        threads := hh.threads.push recent_none
        jobs := recent_append.mpr ⟨hh.jobs, hjob⟩ }

theorem callThread
    (hid : t.threads ≤ id) (name : String) :
    Oblivious t (Builtin.callThread id name) (Recent t) := by
  unfold Builtin.callThread
  split
  · exact awaitThread hid
  · refine tell (fun h _ => ?_) fun _ _ => recent_vbool
    rw [Heap.thread_forget hid]
  · exact pure (recent_count _)
  · exact tell (fun h _ => rfl) fun _ _ => recent_vstr
  · exact fault _

/-! ### Channels -/

theorem sendValue
    (hid : t.channels ≤ id) (hv : Recent t v) :
    Oblivious t (Builtin.sendValue id v) fun _ => True := by
  refine (await (recent_waitRoom.mpr hid) (.hub (.send hid hv))).bind fun sent _ =>
    ite (fun _ => fault _) fun _ => ?_
  exact pure trivial

theorem receiveValue
    (hid : t.channels ≤ id) :
    Oblivious t (Builtin.receiveValue id) (Recent t) := by
  exact await (recent_waitMessage.mpr hid) (.hub (.receive hid))

theorem tryReceiveValue
    (hid : t.channels ≤ id) :
    Oblivious t (Builtin.tryReceiveValue id) (Recent t) := by
  exact change ((Yields.tryReceive hid).map (·.getD .nil) fun o ho => Recent.getD ho recent_vnil)

theorem tryArms
    {arms : List Channel.Arm} (harms : Recent t arms) :
    Oblivious t (Builtin.tryArms arms) (Recent t) := by
  refine change fun h hh => ?_
  obtain ⟨hsame, hdone⟩ := Hub.Stepped.select? harms h.hub hh.hub
  dsimp only at hsame hdone
  rw [Heap.hub_forget, hsame]
  cases hselect : h.hub.select? arms with
  | none =>
      exact ⟨rfl, hh, recent_none⟩
  | some r =>
      obtain ⟨hrecent, hhub⟩ := hdone r hselect
      exact ⟨rfl, hh.withHub hhub, recent_some.mpr hrecent⟩

theorem awaitWaker
    (hid : t.wakers ≤ id) :
    Oblivious t (Builtin.awaitWaker id) fun _ => True := by
  refine await (recent_waitWaker.mpr hid) fun h hh => ?_
  obtain ⟨hsame, hhub⟩ := Hub.Overlooked.rest hid h.hub hh.hub
  dsimp only at hsame hhub
  rw [Heap.hub_forget, Hub.isWoken_forget hid, hsame]
  split
  · refine ⟨rfl, ?_⟩
    rintro _ ⟨⟩
    exact ⟨trivial, hh.withHub hhub⟩
  · exact ⟨rfl, nofun⟩

theorem awaitArms
    {arms : List Channel.Arm} (fuel : Nat) (hid : t.wakers ≤ id) (harms : Recent t arms) :
    Oblivious t (Builtin.awaitArms fuel id arms) (Recent t) := by
  refine iterate (S := fun _ => True) fuel trivial fun _ _ => (tryArms harms).bind fun o ho => ?_
  cases o with
  | none =>
      exact (awaitWaker hid).bind fun _ _ => pure trivial
  | some r =>
      exact pure (recent_some.mp ho)

theorem selectArm
    {arms : List Channel.Arm} (fuel : Nat) (harms : Recent t arms) :
    Oblivious t (Builtin.selectArm fuel arms) (Recent t) := by
  have hwatch (waker : Nat) (hwaker : t.wakers ≤ waker) :
      Overlooks t fun h =>
        { h with hub := arms.foldl (fun u a => u.watch waker a.channel) h.hub } :=
    .hub (.foldl harms fun a ha => .watch hwaker ha)
  refine (change (Yields.newWaker.further hwatch)).bind fun waker hwaker => ?_
  refine (awaitArms fuel hwaker harms).bind fun selected hselected => ?_
  refine (modify (.hub (.foldl harms fun a ha => ?_))).bind fun _ _ => pure hselected
  exact Hub.Overlooked.unwatch ha

theorem makeChannel
    (typeArgs : List TypeExpr) (hargs : Recent t args) :
    Oblivious t (Builtin.makeChannel typeArgs args) (Recent t) := by
  unfold Builtin.makeChannel
  refine guarded _ (guarded _ ?_)
  dsimp only
  split
  · exact change (.newChannel _ _)
  · refine look (fun h hh => ?_) fun h _ => (ofExcept (P := fun _ => True) fun _ _ => trivial).bind
      fun n _ => guarded _ (change (.newChannel _ _))
    rw [Builtin.intAt_forget hh hargs]

theorem callChannel
    (hid : t.channels ≤ id) (element : Option TypeExpr) (name : String) (hargs : Recent t args) :
    Oblivious t (Builtin.callChannel id element name args) (Recent t) := by
  have hv := recent_argument hargs 0
  have hasked (f : Channel Value → Value) (hf : ∀ c, Recent t (f c)) : Oblivious t (do
      let h ← Eval.heap
      Pure.pure (f (h.channel id))) (Recent t) := by
    refine tell (fun h _ => ?_) fun h _ => hf _
    rw [Heap.channel_forget hid]
  unfold Builtin.callChannel
  split
  · refine counted (look (fun h hh => ?_) fun h _ => (unlessFault _).bind fun _ _ => ?_)
    · rw [Builtin.messageFault?_forget element hh hv]
    · exact (sendValue hid hv).bind fun _ _ => pure recent_vnil
  · exact (receiveValue hid).bind fun o ho => pure (Recent.getD ho recent_vnil)
  · exact tryReceiveValue hid
  · exact (modify (.hub (.close hid))).bind fun _ _ => pure recent_vnil
  · exact hasked (fun c => .bool c.closed) fun _ => recent_vbool
  · exact hasked (fun c => Builtin.count c.size) fun _ => recent_count _
  · exact hasked (fun c => Builtin.count c.size) fun _ => recent_count _
  · refine hasked (fun c => (c.capacity.map Builtin.count).getD .nil) fun c => ?_
    exact Recent.getD (Recent.map_some fun _ _ => recent_count _) recent_vnil
  · refine tell (fun h hh => ?_) fun _ _ => recent_vstr
    rw [Heap.display_forget hh (v := .channel id element) hid]
  · exact fault _

/-! ### Futures -/

theorem settleFuture
    {s : Settlement} (hid : t.futures ≤ id) (hs : Recent t s) :
    Oblivious t (Builtin.settleFuture id s) fun _ => True := by
  exact change (.settle hid hs)

theorem startAsync
    (hargs : Recent t args) :
    Oblivious t (Builtin.startAsync args) (Recent t) := by
  refine counted (look (fun h hh => ?_) fun h _ => withCallback hargs _ fun f hf => ?_)
  · rw [Builtin.firstCallback_forget hh hargs]
  · have hqueued (id : Nat) (hid : t.futures ≤ id) : Overlooks t fun h =>
        { h with jobs := h.jobs ++ [.async f id] } :=
      .enqueue (by simpa using ⟨hf, hid⟩)
    exact change (((Yields.newFuture .promise).further hqueued).map
      (fun id => Value.future id .promise) fun _ hid => hid)

theorem makeCompletable : Oblivious t (Builtin.makeCompletable args) (Recent t) := by
  refine counted (change ?_)
  exact (Yields.newFuture .completable).map (fun id => Value.future id .completable)
    fun _ hid => hid

theorem awaitFuture
    (hid : t.futures ≤ id) :
    Oblivious t (Builtin.awaitFuture id) (Recent t) := by
  refine await (recent_waitFuture.mpr hid) fun h hh => ?_
  rw [Heap.future_forget hid]
  split
  · refine ⟨rfl, ?_⟩
    rintro _ ⟨⟩
    exact ⟨(hh.future hid).1, hh⟩
  · exact ⟨rfl, nofun⟩

theorem awaitUntil
    (hid : t.futures ≤ id) (time : Nat) :
    Oblivious t (Builtin.awaitUntil id time) (Recent t) := by
  refine await (recent_waitUntil.mpr hid) fun h hh => ?_
  rw [Heap.future_forget hid, Heap.clock_forget]
  split
  · refine ⟨rfl, ?_⟩
    rintro _ ⟨⟩
    exact ⟨recent_some.mpr (hh.future hid).1, hh⟩
  · split
    · refine ⟨rfl, ?_⟩
      rintro _ ⟨⟩
      exact ⟨recent_none, hh⟩
    · exact ⟨rfl, nofun⟩

theorem chainFuture
    {callee : Value} (hid : t.futures ≤ id) (step : ChainStep) (hcallee : Recent t callee) :
    Oblivious t (Builtin.chainFuture id step callee) (Recent t) := by
  have hregistered (target : Nat) (htarget : t.futures ≤ target) :
      Overlooks t fun h => h.onSettle id ⟨step, callee, target⟩ :=
    .onSettle hid ⟨hcallee, htarget⟩
  exact change (((Yields.newFuture .promise).further hregistered).map
    (fun id => Value.future id .promise) fun _ htarget => htarget)

section Engines

variable [Unmindful t E]

theorem makePromise
    (hargs : Recent t args) :
    Oblivious t (Builtin.makePromise E args) (Recent t) := by
  refine counted (look (fun h hh => ?_) fun h _ => withCallback hargs _ fun f hf => ?_)
  · rw [Builtin.firstCallback_forget hh hargs]
  refine (change (.newFuture .promise)).bind fun id hid => ?_
  refine (diverting (P := fun _ => True) ?_ fun e he => ?_).bind fun _ _ => pure hid
  · have hsettlers : Recent t [Value.native (.resolve id), .native (.reject id)] := by
      simpa using ⟨hid, hid⟩
    exact (callback hf hsettlers).bind fun _ _ => pure trivial
  · exact (settleFuture hid (recent_rejected.mpr he)).bind fun _ _ => pure trivial

theorem settledValue
    {s : Settlement} (hs : Recent t s) :
    Oblivious t (Builtin.settledValue E s) (Recent t) := by
  cases s with
  | fulfilled v =>
      exact pure hs
  | rejected e =>
      exact throwValue hs
  | cancelled =>
      exact throwNew _ _
  | pending =>
      exact pure recent_vnil

theorem callFuture
    (hid : t.futures ≤ id) (kind : FutureKind) (name : String) (hargs : Recent t args) :
    Oblivious t (Builtin.callFuture E id kind name args) (Recent t) := by
  have hv := recent_argument hargs 0
  have hchain (step : ChainStep) : Oblivious t (do
      let h ← Eval.heap
      let f ← Eval.ofExcept (Builtin.firstCallback h args name)
      Builtin.chainFuture id step f) (Recent t) := by
    refine look (fun h hh => ?_) fun h _ => withCallback hargs _ fun f hf => chainFuture hid step hf
    rw [Builtin.firstCallback_forget hh hargs]
  have hasked (f : Future Continuation → Eval Value) (hf : ∀ u, Oblivious t (f u) (Recent t)) :
      Oblivious t (do
        let h ← Eval.heap
        f (h.future id)) (Recent t) := by
    refine look (fun h _ => ?_) fun h _ => hf _
    rw [Heap.future_forget hid]
  unfold Builtin.callFuture
  dsimp only
  split
  · exact hchain _
  · exact hchain _
  · exact hchain _
  · exact counted ((awaitFuture hid).bind fun s hs => settledValue hs)
  · exact counted ((awaitFuture hid).bind fun s hs => settledValue hs)
  · refine look (fun h hh => ?_) fun h _ => (ofExcept (P := fun _ => True) fun _ _ => trivial).bind
      fun n _ => (awaitUntil hid _).bind fun s hs => ?_
    · rw [Builtin.intAt_forget hh hargs, Heap.clock_forget]
    · cases s with
      | none =>
          exact throwNew _ _
      | some s =>
          exact settledValue (recent_some.mp hs)
  · exact counted ((settleFuture hid (recent_fulfilled.mpr hv)).bind fun _ _ => pure recent_vbool)
  · refine counted ((settleFuture hid ?_).bind fun _ _ => pure recent_vbool)
    exact recent_rejected.mpr hv
  · exact (settleFuture hid recent_cancelled).bind fun _ _ => pure recent_vbool
  · refine look (fun h _ => ?_) fun h _ => ?_
    · rw [Heap.future_forget hid]
    · split
      · exact pure recent_vbool
      · exact pure recent_vbool
  · exact hasked (fun u => Pure.pure (.bool u.isDone)) fun u => pure recent_vbool
  · exact hasked (fun u => Pure.pure (.str u.settlement.word)) fun u => pure recent_vstr
  · exact hasked (fun u => Pure.pure (.str u.text)) fun u => pure recent_vstr
  · exact fault _

theorem continueWith
    {k : Continuation} {settled : Settlement} (hk : Recent t k) (hsettled : Recent t settled) :
    Oblivious t (Builtin.continueWith E k settled) (Recent t) := by
  unfold Builtin.continueWith
  split
  · refine (callback hk.1 ?_).bind fun v hv => pure hv
    exact recent_cons.mpr ⟨recent_fulfilled.mp hsettled, recent_nil⟩
  · refine look (fun h hh => ?_) fun h _ => (callback hk.1 (by simp)).bind fun v hv => pure hv
    rw [Heap.exceptionMessage_forget hh hsettled]
  · exact (callback hk.1 recent_nil).bind fun _ _ => pure hsettled
  · exact pure hsettled

end Engines

end Oblivious
end ScriptEngine
