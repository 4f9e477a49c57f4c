import ScriptEngine.Proofs.Evaluation.Language

/-!
# The ledger of faults

No clause of a program takes a fault, but a fault can be lost: a cleanup that does not complete, or
a deferred call that raises, puts its own outcome in the place of the one that was pending.  The
history tells of every fault that is raised and of every one that is lost.

**The balance.** As long as a program is the only thread and there are no futures, what was raised
is what was lost and what is still owed.  An evaluation owes the cause of a fault from the moment
it raises it; when the evaluation ends with that fault, whoever goes on owes it.

`Balanced` says so of a computation.  Each operation of `Composed` is balanced, so is whatever the
engine runs.
-/

namespace ScriptEngine

namespace Event

/-- The cause of a fault that is raised. -/
def raised? : Event → Option Cause
  | faulted cause => some cause
  | _ => none

/-- The cause of a fault that is lost. -/
def lost? : Event → Option Cause
  | superseded cause => some cause
  | _ => none

end Event

/-- The causes of the faults that events raise. -/
def raisedIn (events : List Event) : List Cause := events.filterMap Event.raised?

/-- The causes of the faults that are lost in events. -/
def lostIn (events : List Event) : List Cause := events.filterMap Event.lost?

/-- The causes that a signal passes on: that of a fault. -/
def Signal.causes : Signal → List Cause
  | .fault f => [f.cause]
  | .thrown _ => []

/-- The causes that an outcome passes on. -/
def causes {α : Type} : Except Signal α → List Cause
  | .error s => s.causes
  | .ok _ => []

namespace Heap

/-- There are neither threads nor futures beside the main thread. -/
def Solo (h : Heap) : Prop := h.threads.size = 0 ∧ h.futures.size = 0

/-- Threads and futures are only added. -/
structure NoFewer (h h' : Heap) : Prop where
  threads : h.threads.size ≤ h'.threads.size
  futures : h.futures.size ≤ h'.futures.size

namespace NoFewer

theorem refl
    (h : Heap) :
    NoFewer h h := by
  exact ⟨Nat.le_refl _, Nat.le_refl _⟩

theorem trans
    {h₁ h₂ h₃ : Heap}
    (h₁₂ : NoFewer h₁ h₂) (h₂₃ : NoFewer h₂ h₃) :
    NoFewer h₁ h₃ := by
  exact ⟨Nat.le_trans h₁₂.threads h₂₃.threads, Nat.le_trans h₁₂.futures h₂₃.futures⟩

/-- Who is alone was alone before. -/
theorem solo
    {h h' : Heap}
    (hle : NoFewer h h') (hsolo : h'.Solo) :
    h.Solo := by
  obtain ⟨hthreads, hfutures⟩ := hsolo
  have hle₁ := hle.threads
  have hle₂ := hle.futures
  exact ⟨by omega, by omega⟩

end NoFewer

end Heap

/-- Since a past, what was raised is what was lost and what is owed. -/
def Owes (past : List Event) (cs : List Cause) (h : Heap) : Prop :=
  h.Solo → ∃ events, h.history = events ++ past ∧
    (raisedIn events).Perm (lostIn events ++ cs)

/-- A stretch in which what is owed may change. -/
structure Entry (past : List Event) (cs : List Cause) (h : Heap) (cs' : List Cause)
    (h' : Heap) : Prop where
  noFewer : h.NoFewer h'
  owes : Owes past cs' h'
  jobs : h'.Solo → h'.jobs = h.jobs

namespace Entry

variable {past : List Event} {cs cs' cs'' : List Cause} {h h' h'' : Heap}

theorem refl
    (ho : Owes past cs h) :
    Entry past cs h cs h := by
  exact ⟨.refl h, ho, fun _ => rfl⟩

theorem trans
    (h₁ : Entry past cs h cs' h') (h₂ : Entry past cs' h' cs'' h'') :
    Entry past cs h cs'' h'' := by
  refine ⟨h₁.noFewer.trans h₂.noFewer, h₂.owes, fun hsolo => ?_⟩
  rw [h₂.jobs hsolo, h₁.jobs (h₂.noFewer.solo hsolo)]

/-- New events, and what they make of what is owed. -/
theorem of_events
    (new : List Event)
    (ho : Owes past cs h)
    (noFewer : h.NoFewer h')
    (history : h'.history = new ++ h.history)
    (jobs : h'.Solo → h'.jobs = h.jobs)
    (hperm : (raisedIn new ++ cs).Perm (lostIn new ++ cs')) :
    Entry past cs h cs' h' := by
  refine ⟨noFewer, fun hsolo => ?_, jobs⟩
  obtain ⟨events, hevents, hbalance⟩ := ho (noFewer.solo hsolo)
  refine ⟨new ++ events, ?_, ?_⟩
  · rw [history, hevents, List.append_assoc]
  · have hraised : raisedIn (new ++ events) = raisedIn new ++ raisedIn events :=
      List.filterMap_append
    have hlost : lostIn (new ++ events) = lostIn new ++ lostIn events :=
      List.filterMap_append
    rw [hraised, hlost]
    have h₁ : (raisedIn new ++ raisedIn events).Perm (raisedIn new ++ (lostIn events ++ cs)) :=
      hbalance.append_left _
    have h₂ : (raisedIn new ++ (lostIn events ++ cs)).Perm
        (lostIn events ++ (raisedIn new ++ cs)) := List.perm_append_comm_assoc _ _ _
    have h₃ : (lostIn events ++ (raisedIn new ++ cs)).Perm
        (lostIn events ++ (lostIn new ++ cs')) := hperm.append_left _
    have h₄ : (lostIn events ++ (lostIn new ++ cs')).Perm
        (lostIn new ++ (lostIn events ++ cs')) := List.perm_append_comm_assoc _ _ _
    rw [List.append_assoc]
    exact ((h₁.trans h₂).trans h₃).trans h₄

/-- A change of the heap that is no matter of faults. -/
theorem quiet
    (ho : Owes past cs h)
    (noFewer : h.NoFewer h')
    (history : h'.history = h.history)
    (jobs : h'.Solo → h'.jobs = h.jobs) :
    Entry past cs h cs h' := by
  exact of_events [] ho noFewer history jobs (.refl _)

theorem calm
    (ho : Owes past cs h) (hcalm : Calm h h') :
    Entry past cs h cs h' := by
  refine quiet ho ⟨hcalm.threads, hcalm.futures⟩ hcalm.history fun hsolo => ?_
  obtain ⟨js, hjobs, -, hnil⟩ := hcalm.jobs
  rw [hjobs, hnil hsolo.2, List.append_nil]

/-- An event is added to the history. -/
theorem note
    {e : Event}
    (ho : Owes past cs h)
    (hperm : (raisedIn [e] ++ cs).Perm (lostIn [e] ++ cs')) :
    Entry past cs h cs' (h.note e) := by
  exact of_events [e] ho ⟨Nat.le_refl _, Nat.le_refl _⟩ (Heap.history_note h e) (fun _ => rfl) hperm

/-- An event that is no matter of faults. -/
theorem told
    (e : Event) (ho : Owes past cs h) (hraised : e.raised? = none) (hlost : e.lost? = none) :
    Entry past cs h cs (h.note e) := by
  refine note ho ?_
  simp [raisedIn, lostIn, hraised, hlost]

/-- Where there are threads or futures, no account is kept. -/
theorem of_not_solo
    (noFewer : h.NoFewer h') (hnot : ¬h'.Solo) :
    Entry past cs h cs' h' := by
  exact ⟨noFewer, fun hsolo => absurd hsolo hnot, fun hsolo => absurd hsolo hnot⟩

end Entry

/-- The protocol of faults since a past. -/
def ledger (past : List Event) : Protocol (List Cause) where
  inv := Owes past
  along := Heap.NoFewer
  moves := Entry past
  along_refl := Heap.NoFewer.refl
  along_trans := Heap.NoFewer.trans
  moves_refl := Entry.refl
  moves_trans := Entry.trans
  moves_along := Entry.noFewer
  moves_inv := Entry.owes

/-- An outcome owes what its fault owes, beside what was owed before. -/
def Passes {α : Type} (cs : List Cause) : Protocol.Goal (List Cause) α :=
  fun o cs' => cs' = causes o ++ cs

/-- A computation keeps the balance. -/
def Balanced {α : Type} (x : Eval α) : Prop :=
  ∀ past c cs h, Owes past cs h → (ledger past).Follows (Passes cs) (x c h) cs h

namespace Balanced

variable {α β : Type}

theorem pure
    (a : α) :
    Balanced (Pure.pure a : Eval α) := by
  intro past c cs h ho
  exact ⟨cs, .refl ho, rfl⟩

theorem thrown
    (e : Exception) :
    Balanced (Eval.raise (.thrown e) : Eval α) := by
  intro past c cs h ho
  exact ⟨cs, .refl ho, rfl⟩

theorem throwValue
    (e : Exception) :
    Balanced (Eval.throwValue e : Eval α) := by
  intro past c cs h ho
  rw [Eval.throwValue_apply]
  exact ⟨cs, .told (.threw e) ho rfl rfl, rfl⟩

/-- A fault that is raised is owed. -/
theorem fault
    (cause : Cause) :
    Balanced (Eval.fault cause : Eval α) := by
  intro past c cs h ho
  rw [Eval.fault_apply]
  exact ⟨cause :: cs, .note ho (.refl _), rfl⟩

theorem bind
    {x : Eval α} {f : α → Eval β}
    (hx : Balanced x) (hf : ∀ a, Balanced (f a)) :
    Balanced (x >>= f) := by
  intro past c cs h ho
  rw [Eval.bind_apply]
  refine (hx past c cs h ho).bind (fun a cs' h' _ ho' hq => ?_) fun s cs' hq => ?_
  · cases hq
    exact hf a past c cs h' ho'
  · exact hq

theorem giveUp :
    Balanced (Eval.giveUp : Eval α) := by
  intro past c cs h ho
  trivial

theorem change
    {f : Heap → α × Heap}
    (hf : ∀ h, Calm h (f h).2) :
    Balanced (Eval.change f) := by
  intro past c cs h ho
  exact ⟨cs, .calm ho (hf h), rfl⟩

theorem modify
    {f : Heap → Heap}
    (hf : ∀ h, Calm h (f h)) :
    Balanced (Eval.modify f) := by
  exact change (f := fun h => ((), f h)) hf

theorem await
    {b : Blocker} {step : Heap → Option (α × Heap)}
    (hstep : ∀ h a h', step h = some (a, h') → Calm h h') :
    Balanced (Eval.await b step) := by
  intro past c cs h ho
  unfold Eval.await
  split
  · next a h' hs =>
      exact ⟨cs, .calm ho (hstep _ _ _ hs), rfl⟩
  · refine ⟨cs, .refl ho, fun h' hle ho' => ?_⟩
    dsimp only
    split
    · next a h'' hs =>
        exact ⟨cs, .calm ho' (hstep _ _ _ hs), rfl⟩
    · trivial

theorem yield :
    Balanced Eval.yield := by
  intro past c cs h ho
  exact ⟨cs, .refl ho, fun h' hle ho' => ⟨cs, .refl ho', rfl⟩⟩

/-- Who waits for a thread is not alone, and owes nothing for what is done next. -/
private theorem awaited
    (id : Nat) {f : Outcome → Eval α}
    (hf : ∀ past c cs h outcome, ¬h.Solo →
      (ledger past).Follows (Passes cs) (f outcome c h) cs h) :
    Balanced (Eval.await (.thread id) (fun h => ((h.threads[id]?).getD none).map (·, h)) >>= f) := by
  intro past c cs h ho
  have hnot {h : Heap} {r : Outcome × Heap}
      (hs : ((h.threads[id]?).getD none).map (·, h) = some r) :
      r.2 = h ∧ ¬h.Solo := by
    obtain ⟨outcome, hthread, rfl⟩ := Option.map_eq_some_iff.mp hs
    refine ⟨rfl, fun hsolo => ?_⟩
    have hempty : h.threads = #[] := Array.eq_empty_of_size_eq_zero hsolo.1
    simp [hempty] at hthread
  rw [Eval.bind_apply]
  unfold Eval.await
  dsimp only
  split
  · next outcome h' hs =>
      obtain ⟨rfl, hsolo⟩ := hnot hs
      exact hf past c cs _ outcome hsolo
  · refine ⟨cs, .refl ho, fun h' hle ho' => ?_⟩
    dsimp only
    split
    · next outcome h'' hs =>
        obtain ⟨rfl, hsolo⟩ := hnot hs
        exact hf past c cs _ outcome hsolo
    · trivial

theorem join
    (id : Nat) :
    Balanced (Builtin.awaitThread id) := by
  refine awaited id fun past c cs h outcome hnot => ?_
  split
  · exact ⟨cs, .of_not_solo (.refl h) hnot, rfl⟩
  · next e =>
      rw [Eval.throwValue_apply]
      exact ⟨cs, .of_not_solo ⟨Nat.le_refl _, Nat.le_refl _⟩ hnot, rfl⟩
  · next f =>
      exact ⟨f.cause :: cs, .of_not_solo (.refl h) hnot, rfl⟩

theorem spawn
    (body : List Stmt) (env : Env) :
    Balanced (Builtin.startThread body env) := by
  intro past c cs h ho
  refine ⟨cs, .of_not_solo ⟨?_, Nat.le_refl _⟩ fun hsolo => ?_, rfl⟩
  · simp
  · have hthreads := hsolo.1
    simp at hthreads

theorem mapFault
    {x : Eval α} {f : Fault → Fault}
    (hf : ∀ e, (f e).cause = e.cause) (hx : Balanced x) :
    Balanced (Eval.mapFault f x) := by
  intro past c cs h ho
  refine (hx past c cs h ho).mapFault fun e cs' hq => ?_
  rw [show cs' = e.cause :: cs from hq, ← hf e]
  rfl

/-- Who takes an outcome owes what it passes on. -/
theorem attempt_bind
    {x : Eval α} {f : Except Signal α → Eval β}
    (hx : Balanced x)
    (hf : ∀ outcome past c cs h, Owes past (causes outcome ++ cs) h →
      (ledger past).Follows (Passes cs) (f outcome c h) (causes outcome ++ cs) h) :
    Balanced (Eval.attempt x >>= f) := by
  intro past c cs h ho
  rw [Eval.bind_apply, Eval.attempt_apply]
  refine (hx past c cs h ho).attempt.bind (fun outcome cs' h' _ ho' hq => ?_) fun s cs' hq => ?_
  · obtain ⟨outcome', heq, hq⟩ := hq
    cases heq
    cases hq
    exact hf outcome past c cs h' ho'
  · obtain ⟨outcome', heq, -⟩ := hq
    cases heq

/-- To pass on an outcome is to pass on what it owes. -/
theorem ofOutcome
    (outcome : Except Signal α) {past : List Event} (c : Context) {cs : List Cause} {h : Heap}
    (ho : Owes past (causes outcome ++ cs) h) :
    (ledger past).Follows (Passes cs) (Eval.ofOutcome outcome c h) (causes outcome ++ cs) h := by
  cases outcome with
  | ok a =>
      exact ⟨_, .refl ho, rfl⟩
  | error s =>
      exact ⟨_, .refl ho, rfl⟩

/-- An event that is no matter of faults. -/
theorem note
    {e : Event}
    (hraised : e.raised? = none) (hlost : e.lost? = none) :
    Balanced (Eval.note e) := by
  intro past c cs h ho
  exact ⟨cs, .told e ho hraised hlost, rfl⟩

/-- To pass on an outcome after such an event is to pass on what it owes. -/
theorem note_ofOutcome
    {e : Event} (hraised : e.raised? = none) (hlost : e.lost? = none)
    (outcome : Except Signal α) {past : List Event} (c : Context) {cs : List Cause} {h : Heap}
    (ho : Owes past (causes outcome ++ cs) h) :
    (ledger past).Follows (Passes cs) ((Eval.note e >>= fun _ => Eval.ofOutcome outcome) c h)
      (causes outcome ++ cs) h := by
  have htold := Entry.told e ho hraised hlost
  exact Protocol.Follows.after htold (ofOutcome outcome c htold.owes)

/-- No clause takes a fault. -/
theorem catching
    {clauses : List (CatchClause Stmt)} {x : Eval α}
    {handler : CatchClause Stmt → Exception → Eval α}
    (hx : Balanced x) (hhandler : ∀ c e, Balanced (handler c e)) :
    Balanced (Eval.catching clauses x handler) := by
  refine bind (note rfl rfl) fun _ => attempt_bind hx fun outcome past c cs h ho => ?_
  split
  · next e =>
      refine bind (change (f := fun h => (h, h)) Calm.refl) (fun now => ?_) past c cs h ho
      split
      · exact bind (note rfl rfl) fun _ => hhandler _ e
      · exact bind (note rfl rfl) fun _ => thrown e
  · exact note_ofOutcome rfl rfl _ c ho

/-- No executor takes a fault. -/
theorem diverting
    {x : Eval α} {handler : Exception → Eval α}
    (hx : Balanced x) (hhandler : ∀ e, Balanced (handler e)) :
    Balanced (Eval.diverting x handler) := by
  refine bind (note rfl rfl) fun _ => attempt_bind hx fun outcome past c cs h ho => ?_
  split
  · next e =>
      exact bind (note rfl rfl) (fun _ => hhandler e) past c cs h ho
  · exact note_ofOutcome rfl rfl _ c ho

theorem afterwards
    {x : Eval α} {f : Heap → Heap}
    (hx : Balanced x) (hf : ∀ h, Calm h (f h)) :
    Balanced (Eval.afterwards x f) := by
  refine attempt_bind hx fun outcome past c cs h ho => ?_
  have hentry := Entry.calm ho (hf h)
  rw [Eval.bind_apply, Eval.modify_apply]
  exact Protocol.Follows.after hentry (ofOutcome outcome c hentry.owes)

theorem currentFrame :
    Balanced Eval.currentFrame := by
  intro past c cs h ho
  exact ⟨cs, .refl ho, rfl⟩

/-- What an evaluation comes to is noted, and it is passed on. -/
theorem attempt_note
    {x : Eval α} {e : Except Signal α → Event}
    (hraised : ∀ outcome, (e outcome).raised? = none) (hlost : ∀ outcome, (e outcome).lost? = none)
    (hx : Balanced x) :
    Balanced (do
      let outcome ← Eval.attempt x
      Eval.note (e outcome)
      Eval.ofOutcome outcome) := by
  exact attempt_bind hx fun outcome past c cs h ho =>
    note_ofOutcome (hraised outcome) (hlost outcome) outcome c ho

theorem tracked
    {a : Act} {flow : α → Flow} {x : Eval α}
    (hx : Balanced x) :
    Balanced (Eval.tracked a flow x) := by
  exact bind currentFrame fun frame => bind (note rfl rfl) fun _ =>
    attempt_note (fun _ => rfl) (fun _ => rfl) hx

theorem admitted
    {x : Eval α}
    (hx : Balanced x) :
    Balanced (Eval.admitted x) := by
  intro past c cs h ho
  unfold Eval.admitted
  split
  · exact bind (note rfl rfl) (fun _ => fault _) past c cs h ho
  · exact hx past { c with depth := c.depth + 1 } cs h ho

theorem deeper
    {i : Invocation} {args : List Value} {x : Eval Value}
    (hx : Balanced x) :
    Balanced (Eval.deeper i args x) := by
  exact bind (note rfl rfl) fun _ => attempt_note (fun _ => rfl) (fun _ => rfl) (admitted hx)

/-- The name of a call is told with its fault. -/
theorem invoke
    {E : Engine} {i : Invocation} {args : List Value} (site : Span)
    (hframe : Balanced (Eval.runFrame E i args)) :
    Balanced (Eval.invoke E i args site) := by
  exact deeper (mapFault (fun _ => rfl) hframe)

/-- What an outcome owes is lost when another one takes its place. -/
theorem supersede_apply
    (outcome : Except Signal α) {past : List Event} (c : Context) {later cs : List Cause}
    {h : Heap}
    (ho : Owes past (later ++ (causes outcome ++ cs)) h) :
    ∃ h', Eval.supersede outcome c h = .value () h' ∧
      Entry past (later ++ (causes outcome ++ cs)) h (later ++ cs) h' := by
  unfold Eval.supersede
  split
  · next f =>
      refine ⟨h.note (.superseded f.cause), rfl, .note ho ?_⟩
      exact List.perm_middle
  · next hother =>
      have hnone : causes outcome = [] := by
        cases outcome with
        | ok a =>
            rfl
        | error s =>
            cases s with
            | thrown e =>
                rfl
            | fault f =>
                exact absurd rfl (hother f)
      refine ⟨h, rfl, ?_⟩
      rw [hnone] at ho ⊢
      exact .refl ho

/-- A cleanup that does not complete puts its outcome in the place of the one that was pending. -/
theorem withCleanup
    {x cleanup : Eval Flow}
    (hx : Balanced x) (hcleanup : Balanced cleanup) :
    Balanced (Eval.withCleanup x cleanup) := by
  refine bind (note rfl rfl) fun _ => attempt_bind hx fun outcome past c cs h ho => ?_
  have hcleaning := Entry.told .cleaning ho rfl rfl
  rw [Eval.note_bind_apply, Eval.bind_apply, Eval.attempt_apply]
  refine Protocol.Follows.after hcleaning ?_
  have hrun := (hcleanup past c (causes outcome ++ cs) _ hcleaning.owes).attempt
  refine hrun.bind (fun later cs' h' _ ho' hq => ?_) fun s cs' hq => ?_
  · obtain ⟨later', heq, hq⟩ := hq
    cases heq
    cases hq
    split
    · exact note_ofOutcome rfl rfl outcome c ho'
    · next hother =>
        have htold := Entry.told .overruled ho' rfl rfl
        obtain ⟨h'', happly, hentry⟩ := supersede_apply outcome c htold.owes
        rw [Eval.note_bind_apply, Eval.bind_apply, happly]
        exact Protocol.Follows.after (htold.trans hentry) (ofOutcome later c hentry.owes)
  · obtain ⟨outcome', heq, -⟩ := hq
    cases heq

/-! ### Scopes and frames -/

/-- A change of scopes is no matter of faults. -/
theorem scopes
    {f : Heap → α × Scopes} :
    Balanced (Eval.change fun h => ((f h).1, { h with scopes := (f h).2 })) := by
  intro past c cs h ho
  exact ⟨cs, .quiet ho ⟨Nat.le_refl _, Nat.le_refl _⟩ rfl fun _ => rfl, rfl⟩

theorem within
    {x : Eval α} (frame : ScopeId)
    (hx : Balanced x) :
    Balanced (Eval.within frame x) := by
  intro past c cs h ho
  exact hx past { c with frame := some frame } cs h ho

theorem deferCall
    (env : Env) (d : Deferred) :
    Balanced (Eval.deferCall env d) := by
  refine bind (scopes (f := fun h => ((), h.scopes.deferCall env d))) fun _ => ?_
  exact bind currentFrame fun frame => note rfl rfl

/-- The outcome of the last deferred call that raises counts; those before it are lost. -/
theorem runDefers
    {E : Engine}
    (hcall : ∀ d, Balanced (Eval.makeDeferredCall E d))
    (frame : ScopeId) (ds : List Deferred) (outcome : Except Signal Flow)
    {past : List Event} (c : Context) {cs : List Cause} {h : Heap}
    (ho : Owes past (causes outcome ++ cs) h) :
    (ledger past).Follows (fun o cs' => ∃ last, o = .ok last ∧ cs' = causes last ++ cs)
      (Eval.runDefers E frame outcome ds c h) (causes outcome ++ cs) h := by
  induction ds generalizing outcome h with
  | nil =>
      exact ⟨_, .refl ho, outcome, rfl, rfl⟩
  | cons d earlier ih =>
      have hran := Entry.told (.ran frame d) ho rfl rfl
      unfold Eval.runDefers
      rw [Eval.bind_apply, Eval.note_apply]
      refine Protocol.Follows.after hran ?_
      rw [Res.bind, Eval.bind_apply, Eval.attempt_apply]
      have hlocate (e : Fault) : (e.locate d.span).cause = e.cause := by
        unfold Fault.locate
        split <;> rfl
      have hrun := mapFault hlocate (hcall d) past c _ _ hran.owes
      refine hrun.attempt.bind (fun o cs' h' _ ho' hq => ?_) fun s cs' hq => ?_
      · obtain ⟨later, heq, hq⟩ := hq
        cases heq
        cases hq
        split
        · have htold := Entry.told .cleaned ho' rfl rfl
          exact Protocol.Follows.after htold (ih outcome htold.owes)
        · next s =>
            have htold := Entry.told .overruled ho' rfl rfl
            obtain ⟨h'', happly, hentry⟩ := supersede_apply outcome c htold.owes
            rw [Eval.note_bind_apply, Eval.bind_apply, happly]
            refine Protocol.Follows.after (htold.trans hentry) ?_
            exact ih (.error s) hentry.owes
      · obtain ⟨later, heq, -⟩ := hq
        cases heq

/-- Only a deferred call that raises keeps the outcome of a body from the caller. -/
theorem leaveFrame
    {E : Engine} {env : Env} {code : LambdaBody Expr Stmt}
    (hcode : Balanced (Eval.runCode E code env))
    (hcall : ∀ d, Balanced (Eval.makeDeferredCall E d)) :
    Balanced (Eval.leaveFrame E env code) := by
  refine bind currentFrame fun caller => bind (note rfl rfl) fun _ => ?_
  intro past c cs h ho
  rw [Eval.bind_apply, Eval.within_apply]
  refine Protocol.Follows.bind (Q := fun o cs' => ∃ last, o = .ok last ∧
    cs' = causes last ++ cs) ?_ (fun o cs' h' _ ho' hq => ?_) fun s cs' hq => ?_
  · rw [Eval.bind_apply, Eval.attempt_apply]
    refine (hcode past _ cs h ho).attempt.bind (fun outcome cs' h' _ ho' hq => ?_) ?_
    · obtain ⟨outcome', heq, hq⟩ := hq
      cases heq
      cases hq
      rw [Eval.bind_apply, Eval.takeDefers, Eval.change_apply, Res.bind, Eval.note_bind_apply,
        Eval.note_bind_apply]
      have htake : Entry past (causes outcome ++ cs) h' (causes outcome ++ cs)
          { h' with scopes := (h'.scopes.takeDeferred env).2 } :=
        .quiet ho' ⟨Nat.le_refl _, Nat.le_refl _⟩ rfl fun _ => rfl
      have hstop := htake.trans (.told (.stopped (env.headD 0)) htake.owes rfl rfl)
      have hdue := hstop.trans
        (.told (.due (env.headD 0) (h'.scopes.takeDeferred env).1) hstop.owes rfl rfl)
      exact Protocol.Follows.after hdue (runDefers hcall _ _ outcome _ hdue.owes)
    · rintro s cs' ⟨outcome', heq, -⟩
      cases heq
  · obtain ⟨last, heq, howed⟩ := hq
    cases heq
    cases howed
    have hleft : Entry past (causes o ++ cs) h' (causes o ++ cs)
        (h'.note (.left (env.headD 0) caller)) := .note ho' (.refl _)
    rw [Eval.bind_apply, Eval.note_apply]
    exact Protocol.Follows.after hleft (ofOutcome o c hleft.owes)
  · obtain ⟨last, heq, -⟩ := hq
    cases heq

end Balanced

/-- What the engine runs is balanced, so what is composed of it is. -/
theorem Balanced.of_composed
    {E : Engine} {r : Role} {α : Type} {x : Eval α}
    (hE : ∀ {β : Type} (t : Task β), Balanced (E.run t))
    (hx : Composed E r x) :
    Balanced x := by
  induction hx with
  | pure a =>
      exact pure a
  | bind _ _ ihx ihf =>
      exact bind ihx ihf
  | plain _ ih =>
      exact ih
  | thrown e =>
      exact throwValue e
  | fault c =>
      exact fault c
  | giveUp =>
      exact giveUp
  | change hf =>
      exact change hf
  | await hstep =>
      exact await hstep
  | yield =>
      exact yield
  | join id =>
      exact join id
  | spawn body env =>
      exact spawn body env
  | called _ ih =>
      exact invoke _ ih
  | built _ ih =>
      exact bind (note rfl rfl) fun _ => afterwards ih (.endConstruction _)
  | mapFault hf _ ih =>
      exact mapFault hf ih
  | diverting _ _ ihx ihhandler =>
      exact diverting ihx ihhandler
  | afterwards _ hf ih =>
      exact afterwards ih hf
  | @block _ env _ _ _ _ ih =>
      exact bind (scopes (f := fun h => h.scopes.child env)) ih
  | body _ ih =>
      exact tracked ih
  | @openFrame env name receiver _ _ _ ih =>
      exact bind (scopes (f := fun h => h.scopes.enter env name receiver)) ih
  | @openFields env name receiver _ _ _ ih =>
      exact bind (scopes (f := fun h => h.scopes.enter env name receiver)) ih
  | leave _ _ ihcode ihcall =>
      exact leaveFrame ihcode ihcall
  | exec s _ =>
      exact hE (.exec s _)
  | eval e env =>
      exact hE (.eval e env)
  | call callee args typeArgs site =>
      exact hE (.call callee args typeArgs site)
  | text v =>
      exact hE (.text v)

/-- What operations preserve: the balance, in whatever place. -/
theorem Balanced.preserved :
    Preserved fun _ _ x => Balanced x where
  giveUp := giveUp
  composed hE _ _ _ hx := of_composed hE hx
  tracked := tracked
  mapFault := mapFault
  defer env d := bind (deferCall env d) fun _ => pure _
  catching := catching
  withCleanup := withCleanup

/-- Whatever the engine runs is balanced. -/
theorem balanced_run
    (fuel : Nat) {α : Type} (t : Task α) :
    Balanced (Eval.run fuel t) := by
  exact Balanced.preserved.run fuel t

/-- What is composed of tasks of the engine is balanced. -/
theorem balanced_composed
    {r : Role} {α : Type} {x : Eval α}
    (hx : Composed Eval.engine r x) :
    Balanced x := by
  exact .of_composed (balanced_run Eval.fullFuel) hx

end ScriptEngine
