import ScriptEngine.Proofs.Evaluation.Language
import ScriptEngine.Proofs.Frames.Session
import ScriptEngine.Proofs.Throws.Flight

/-!
# Thrown values in evaluations and sessions

Whatever a thread does in a stretch, what is noted of it meanwhile are steps of its flight.
That does not depend on the other threads: a thread may find any heap when it goes on.

`Flies` says of a computation that it takes a flight as it is to one in which just its own outcome is
on its way out.  Each operation of `Composed` flies, so does whatever the engine runs.

**Sessions.** `Res.Runs` tells the events that a thread itself adds in all its stretches.  They obey
the law of thrown values, in the main thread of a program as in any other.  When the program has
ended, a value that nobody has taken is its result: the message and the class of that very value.
-/

namespace ScriptEngine

/-- What is noted in a stretch are steps of a flight. -/
def Adds (s : Flight) (h : Heap) (s' : Flight) (h' : Heap) : Prop :=
  ∃ t, h'.notes = t.reverse ++ h.notes ∧ Steps s t s'

namespace Adds

variable {s s' s'' : Flight} {h h' h'' : Heap}

theorem of_notes
    (s : Flight) (hnotes : h'.notes = h.notes) :
    Adds s h s h' := by
  exact ⟨[], hnotes, .refl⟩

theorem refl
    (s : Flight) (h : Heap) :
    Adds s h s h := by
  exact of_notes s rfl

theorem calm
    (s : Flight) (hcalm : Calm h h') :
    Adds s h s h' := by
  exact of_notes s hcalm.notes

theorem note
    {ev : Event} (h : Heap) (hstep : Step s ⟨ev, h.toMemory⟩ s') :
    Adds s h s' (h.note ev) := by
  exact ⟨[⟨ev, h.toMemory⟩], Heap.notes_note h ev, .one hstep⟩

theorem trans
    (h₁ : Adds s h s' h') (h₂ : Adds s' h' s'' h'') :
    Adds s h s'' h'' := by
  obtain ⟨t₁, hnotes₁, hsteps₁⟩ := h₁
  obtain ⟨t₂, hnotes₂, hsteps₂⟩ := h₂
  refine ⟨t₁ ++ t₂, ?_, hsteps₁.trans hsteps₂⟩
  rw [hnotes₂, hnotes₁, List.reverse_append, List.append_assoc]

end Adds

/-- The protocol of thrown values.  A thread counts on nothing. -/
def flights : Protocol Flight where
  inv _ _ := True
  along _ _ := True
  moves := Adds
  along_refl _ := trivial
  along_trans _ _ := trivial
  moves_refl _ := .refl _ _
  moves_trans := .trans
  moves_along _ := trivial
  moves_inv _ := trivial

/-- An outcome is all that is on its way out. -/
def Lands {α : Type} (L : List Layer) : Protocol.Goal Flight α :=
  fun o s => s = ⟨L, none, thrownBy o⟩

/-- A computation takes a flight to one in which its own outcome is on its way out. -/
def Flies {α : Type} (x : Eval α) : Prop :=
  ∀ c L h, flights.Follows (Lands L) (x c h) ⟨L, none, none⟩ h

namespace Flies

variable {α β : Type} {L : List Layer} {s s' : Flight}

theorem pure
    (a : α) :
    Flies (Pure.pure a : Eval α) := by
  intro c L h
  exact ⟨_, .refl _ _, rfl⟩

/-- An event that comes first. -/
theorem note_bind
    {ev : Event} {Q : Protocol.Goal Flight α} {x : Eval α} {c : Context} {h : Heap}
    (hstep : Step s ⟨ev, h.toMemory⟩ s') (hx : flights.Follows Q (x c (h.note ev)) s' (h.note ev)) :
    flights.Follows Q ((Eval.note ev >>= fun _ => x) c h) s h := by
  rw [Eval.note_bind_apply]
  have hadds : flights.moves s h s' (h.note ev) := Adds.note h hstep
  exact hx.after hadds

theorem throwValue
    (e : Exception) :
    Flies (Eval.throwValue e : Eval α) := by
  intro c L h
  exact ⟨_, .note h .threw, rfl⟩

theorem raiseFault
    (f : Fault) :
    Flies (Eval.raise (.fault f) : Eval α) := by
  intro c L h
  exact ⟨_, .refl _ _, rfl⟩

theorem note
    {ev : Event} (hwork : ev.IsWork) :
    Flies (Eval.note ev) := by
  intro c L h
  exact ⟨_, .note h (.work hwork), rfl⟩

theorem bind
    {x : Eval α} {f : α → Eval β}
    (hx : Flies x) (hf : ∀ a, Flies (f a)) :
    Flies (x >>= f) := by
  intro c L h
  rw [Eval.bind_apply]
  refine (hx c L h).bind (fun a s h' _ _ hs => ?_) fun signal s hs => hs
  cases hs
  exact hf a c L h'

theorem fault
    (cause : Cause) :
    Flies (Eval.fault cause : Eval α) := by
  exact bind (note trivial) fun _ => raiseFault _

theorem giveUp :
    Flies (Eval.giveUp : Eval α) := by
  intro c L h
  trivial

/-- A change of the heap of which nothing is noted. -/
theorem change_of_notes
    {f : Heap → α × Heap} (hf : ∀ h, (f h).2.notes = h.notes) :
    Flies (Eval.change f) := by
  intro c L h
  exact ⟨_, .of_notes _ (hf h), rfl⟩

theorem change
    {f : Heap → α × Heap}
    (hf : ∀ h, Calm h (f h).2) :
    Flies (Eval.change f) := by
  exact change_of_notes fun h => (hf h).notes

theorem modify
    {f : Heap → Heap}
    (hf : ∀ h, Calm h (f h)) :
    Flies (Eval.modify f) := by
  exact change (f := fun h => ((), f h)) hf

theorem heap : Flies Eval.heap := by
  exact change (f := fun h => (h, h)) Calm.refl

theorem await
    {b : Blocker} {step : Heap → Option (α × Heap)}
    (hstep : ∀ h a h', step h = some (a, h') → Calm h h') :
    Flies (Eval.await b step) := by
  intro c L h
  unfold Eval.await
  split
  · next a h' hs =>
      exact ⟨_, .calm _ (hstep _ _ _ hs), rfl⟩
  · refine ⟨_, .refl _ _, fun h' _ _ => ?_⟩
    dsimp only
    split
    · next a h'' hs =>
        exact ⟨_, .calm _ (hstep _ _ _ hs), rfl⟩
    · trivial

theorem yield : Flies Eval.yield := by
  intro c L h
  exact ⟨_, .refl _ _, fun h' _ _ => ⟨_, .refl _ _, rfl⟩⟩

/-- What a thread throws is thrown again where it is joined. -/
theorem join
    (id : Nat) :
    Flies (Builtin.awaitThread id) := by
  unfold Builtin.awaitThread
  refine bind (await fun h a h' hs => ?_) fun outcome => ?_
  · obtain ⟨outcome, -, heq⟩ := Option.map_eq_some_iff.mp hs
    cases heq
    exact .refl h
  · split
    · exact pure _
    · exact throwValue _
    · exact raiseFault _

theorem spawn
    (body : List Stmt) (env : Env) :
    Flies (Builtin.startThread body env) := by
  exact change_of_notes fun h => rfl

theorem mapFault
    {f : Fault → Fault} {x : Eval α}
    (hx : Flies x) :
    Flies (Eval.mapFault f x) := by
  intro c L h
  exact (hx c L h).mapFault fun e s hs => hs

/-! ### Outcomes -/

/-- Who takes an outcome takes what is on its way out. -/
theorem attempt_bind
    {x : Eval α} {f : Except Signal α → Eval β} {Q : Protocol.Goal Flight β} {c : Context}
    {h : Heap} (hx : Flies x)
    (hf : ∀ o h', flights.Follows Q (f o c h') ⟨L, none, thrownBy o⟩ h') :
    flights.Follows Q ((Eval.attempt x >>= f) c h) ⟨L, none, none⟩ h := by
  rw [Eval.bind_apply, Eval.attempt_apply]
  refine (hx c L h).attempt.bind (fun o s h' _ _ hs => ?_) fun signal s hs => ?_
  · obtain ⟨o', heq, hs⟩ := hs
    cases heq
    cases hs
    exact hf o h'
  · obtain ⟨o', heq, -⟩ := hs
    cases heq

/-- To pass on an outcome is to pass on what is on its way out. -/
theorem ofOutcome
    (o : Except Signal α) (c : Context) (h : Heap) :
    flights.Follows (Lands L) (Eval.ofOutcome o c h) ⟨L, none, thrownBy o⟩ h := by
  cases o with
  | ok a =>
      exact ⟨_, .refl _ _, rfl⟩
  | error signal =>
      exact ⟨_, .refl _ _, rfl⟩

/-- Only a fault that is lost is noted, which is no matter of thrown values. -/
theorem supersede_bind
    (o : Except Signal α) {Q : Protocol.Goal Flight β} {x : Eval β} {c : Context} {h : Heap}
    (hx : ∀ h', flights.Follows Q (x c h') s h') :
    flights.Follows Q ((Eval.supersede o >>= fun _ => x) c h) s h := by
  unfold Eval.supersede
  split
  · exact note_bind (.quiet trivial) (hx _)
  · exact hx h

/-- The first clause that takes a value takes it from its flight. -/
theorem catching
    {clauses : List (CatchClause Stmt)} {x : Eval α}
    {handler : CatchClause Stmt → Exception → Eval α}
    (hx : Flies x) (hhandler : ∀ c e, Flies (handler c e)) :
    Flies (Eval.catching clauses x handler) := by
  intro c L h
  refine note_bind .tried (attempt_bind hx fun o h' => ?_)
  split
  · next e =>
      rw [Eval.heap_bind_apply]
      cases hclause : clauses.find? (·.takes (h'.instanceOf e.value)) with
      | some clause =>
          exact note_bind (.caught (by rwa [h'.takenBy_memory])) (hhandler clause e c L _)
      | none =>
          exact note_bind (.passed (by rwa [h'.takenBy_memory])) ⟨_, .refl _ _, rfl⟩
  · next hother =>
      have hnone := thrownBy_eq_none hother
      have hland := ofOutcome (L := L) o c (h'.note .finished)
      rw [hnone] at hland ⊢
      exact note_bind .finished hland

/-- An executor takes whatever is thrown in it. -/
theorem diverting
    {x : Eval α} {handler : Exception → Eval α}
    (hx : Flies x) (hhandler : ∀ e, Flies (handler e)) :
    Flies (Eval.diverting x handler) := by
  intro c L h
  refine note_bind .executing (attempt_bind hx fun o h' => ?_)
  split
  · next e =>
      exact note_bind .rejected (hhandler e c L _)
  · next hother =>
      have hnone := thrownBy_eq_none hother
      have hland := ofOutcome (L := L) o c (h'.note .executed)
      rw [hnone] at hland ⊢
      exact note_bind .executed hland

theorem afterwards
    {x : Eval α} {f : Heap → Heap}
    (hx : Flies x) (hf : ∀ h, Calm h (f h)) :
    Flies (Eval.afterwards x f) := by
  intro c L h
  refine attempt_bind hx fun o h' => ?_
  have hadds : flights.moves ⟨L, none, thrownBy o⟩ h' ⟨L, none, thrownBy o⟩ (f h') :=
    Adds.calm _ (hf h')
  rw [Eval.bind_apply, Eval.modify_apply]
  exact Protocol.Follows.after hadds (ofOutcome o c _)

theorem currentFrame : Flies Eval.currentFrame := by
  intro c L h
  exact ⟨_, .refl _ _, rfl⟩

/-- What an evaluation comes to is noted, and it is passed on. -/
theorem attempt_note
    {x : Eval α} {ev : Except Signal α → Event} (hev : ∀ o, (ev o).ends? = some (thrownBy o))
    (hx : Flies x) :
    Flies (do
      let outcome ← Eval.attempt x
      Eval.note (ev outcome)
      Eval.ofOutcome outcome) := by
  exact fun c L h => attempt_bind hx fun o h' => note_bind (.ends (hev o)) (ofOutcome o c _)

theorem tracked
    {a : Act} {flow : α → Flow} {x : Eval α}
    (hx : Flies x) :
    Flies (Eval.tracked a flow x) := by
  refine bind currentFrame fun frame => bind (note trivial) fun _ => attempt_note (fun o => ?_) hx
  cases o with
  | ok a =>
      rfl
  | error signal =>
      rfl

theorem admitted
    {x : Eval α}
    (hx : Flies x) :
    Flies (Eval.admitted x) := by
  intro c L h
  unfold Eval.admitted
  split
  · have hwork : (Event.refused c.limit).IsWork := trivial
    exact bind (note hwork) (fun _ => fault _) c L h
  · exact hx _ L h

theorem deeper
    {i : Invocation} {args : List Value} {x : Eval Value}
    (hx : Flies x) :
    Flies (Eval.deeper i args x) := by
  exact bind (note trivial) fun _ => attempt_note (fun _ => rfl) (admitted hx)

/-- While a cleanup runs, what is pending waits; it goes on if the cleanup completes. -/
theorem withCleanup
    {x cleanup : Eval Flow}
    (hx : Flies x) (hcleanup : Flies cleanup) :
    Flies (Eval.withCleanup x cleanup) := by
  intro c L h
  refine note_bind .shielded (attempt_bind hx fun o h' => ?_)
  refine note_bind .cleaning (attempt_bind hcleanup fun later h'' => ?_)
  split
  · exact note_bind .cleaned (ofOutcome o c _)
  · exact note_bind .overruled (supersede_bind o fun h₃ => ofOutcome later c h₃)

/-! ### Frames -/

theorem deferCall
    (env : Env) (d : Deferred) :
    Flies (Eval.deferCall env d) := by
  refine bind (change_of_notes
    (f := fun h => ((), { h with scopes := h.scopes.deferCall env d })) fun h => rfl) fun _ => ?_
  exact bind currentFrame fun frame => note trivial

/-- The deferred calls of a frame run one by one; what is thrown last is on its way out. -/
theorem runDefers
    {E : Engine} (hcall : ∀ d, Flies (Eval.makeDeferredCall E d)) (frame : ScopeId)
    (ds : List Deferred) (outcome : Except Signal Flow) (c : Context) (h : Heap) :
    flights.Follows
      (fun o s => ∃ last, o = .ok last ∧ s = ⟨L, some (frame, []), thrownBy last⟩)
      (Eval.runDefers E frame outcome ds c h) ⟨L, some (frame, ds), thrownBy outcome⟩ h := by
  induction ds generalizing outcome h with
  | nil =>
      exact ⟨_, .refl _ _, outcome, rfl, rfl⟩
  | cons d earlier ih =>
      refine note_bind .ran (attempt_bind (mapFault (hcall d)) fun o h' => ?_)
      cases o with
      | ok u =>
          exact note_bind .cleaned (ih outcome _)
      | error signal =>
          exact note_bind .overruled (supersede_bind outcome fun h'' => ih (.error signal) h'')

theorem leaveFrame
    {E : Engine} {env : Env} {code : LambdaBody Expr Stmt}
    (hcode : Flies (Eval.runCode E code env)) (hcall : ∀ d, Flies (Eval.makeDeferredCall E d)) :
    Flies (Eval.leaveFrame E env code) := by
  refine bind currentFrame fun caller => ?_
  intro c L h
  refine note_bind .entered ?_
  rw [Eval.bind_apply, Eval.within_apply]
  refine Protocol.Follows.bind (Q := fun o s => ∃ last, o = .ok last ∧
    s = ⟨L, some (env.headD 0, []), thrownBy last⟩) ?_ ?_ ?_
  · refine attempt_bind hcode fun outcome h' => ?_
    have hadds : flights.moves ⟨.frame (env.headD 0) :: L, none, thrownBy outcome⟩ h'
        ⟨.frame (env.headD 0) :: L, none, thrownBy outcome⟩
        { h' with scopes := (h'.scopes.takeDeferred env).2 } := Adds.of_notes _ rfl
    rw [Eval.bind_apply, Eval.takeDefers, Eval.change_apply]
    refine Protocol.Follows.after hadds ?_
    refine note_bind (.quiet trivial) (note_bind .due ?_)
    exact runDefers hcall _ _ outcome _ _
  · rintro last s h' - - ⟨last', heq, rfl⟩
    cases heq
    exact note_bind .left (ofOutcome last c _)
  · rintro signal s ⟨last, heq, -⟩
    cases heq

end Flies

/-! ### All that is composed -/

/-- What the engine runs flies, so what is composed of it does. -/
theorem Flies.of_composed
    {E : Engine} {r : Role} {α : Type} {x : Eval α}
    (hE : ∀ {β : Type} (t : Task β), Flies (E.run t))
    (hx : Composed E r x) :
    Flies x := by
  induction hx with
  | pure a =>
      exact pure a
  | bind _ _ ihx ihf =>
      exact bind ihx ihf
  | plain _ ih =>
      exact ih
  | thrown e =>
      exact throwValue e
  | fault c =>
      exact fault c
  | giveUp =>
      exact giveUp
  | change hf =>
      exact change hf
  | await hstep =>
      exact await hstep
  | yield =>
      exact yield
  | join id =>
      exact join id
  | spawn body env =>
      exact spawn body env
  | called _ ih =>
      exact deeper (mapFault ih)
  | built _ ih =>
      exact bind (note trivial) fun _ => afterwards ih (.endConstruction _)
  | mapFault _ _ ih =>
      exact mapFault ih
  | diverting _ _ ihx ihhandler =>
      exact diverting ihx ihhandler
  | afterwards _ hf ih =>
      exact afterwards ih hf
  | block _ _ ih =>
      exact bind (change_of_notes fun h => rfl) ih
  | body _ ih =>
      exact tracked ih
  | openFrame _ ih =>
      exact bind (change_of_notes fun h => rfl) ih
  | openFields _ ih =>
      exact bind (change_of_notes fun h => rfl) ih
  | leave _ _ ihcode ihcall =>
      exact leaveFrame ihcode ihcall
  | exec s _ =>
      exact hE (.exec s _)
  | eval e env =>
      exact hE (.eval e env)
  | call callee args typeArgs site =>
      exact hE (.call callee args typeArgs site)
  | text v =>
      exact hE (.text v)

/-- What operations preserve: each takes a flight to one with its own outcome on its way out. -/
theorem Flies.preserved :
    Preserved fun _ _ x => Flies x where
  giveUp := giveUp
  composed hE _ _ _ hx := of_composed hE hx
  tracked := tracked
  mapFault _ hx := mapFault hx
  defer env d := bind (deferCall env d) fun _ => pure _
  catching := catching
  withCleanup := withCleanup

/-- A stretch tells its own events. -/
theorem Adds.steps
    {s s' : Flight} {h h' : Heap} {t : List Note} (hadds : Adds s h s' h')
    (hhistory : h'.notes = t.reverse ++ h.notes) :
    Steps s t s' := by
  obtain ⟨t', hhistory', hsteps⟩ := hadds
  have heq : t'.reverse = t.reverse := List.append_cancel_right (hhistory'.symm.trans hhistory)
  rwa [List.reverse_inj.mp heq] at hsteps

/-- The events of a thread that keeps to the protocol are the steps of a flight. -/
theorem Res.Runs.steps
    {α : Type} {Q : Protocol.Goal Flight α} {r : Res α} {s : Flight} {h : Heap} {t : List Note}
    {ended : Option (Except Signal α × Heap)} (hruns : r.Runs h t ended)
    (hr : flights.Follows Q r s h) :
    ∃ s', Steps s t s' ∧ ∀ o h', ended = some (o, h') → Q o s' := by
  induction hruns generalizing s with
  | value hhistory =>
      obtain ⟨s', hadds, hgoal⟩ := hr
      refine ⟨s', Adds.steps hadds hhistory, fun o h' heq => ?_⟩
      cases heq
      exact hgoal
  | raise hhistory =>
      obtain ⟨s', hadds, hgoal⟩ := hr
      refine ⟨s', Adds.steps hadds hhistory, fun o h' heq => ?_⟩
      cases heq
      exact hgoal
  | waits hhistory =>
      obtain ⟨s', hadds, -⟩ := hr
      exact ⟨s', Adds.steps hadds hhistory, fun o h' heq => by cases heq⟩
  | resumes hhistory _ ih =>
      obtain ⟨s₁, hadds, hrest⟩ := hr
      obtain ⟨s', hsteps, hgoal⟩ := ih (hrest _ trivial trivial)
      exact ⟨s', (Adds.steps hadds hhistory).trans hsteps, hgoal⟩

namespace Session

end Session

end ScriptEngine
