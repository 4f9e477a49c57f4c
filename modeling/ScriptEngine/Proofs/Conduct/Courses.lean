import ScriptEngine.Proofs.Conduct.Plan
import ScriptEngine.Proofs.Evaluation.Checks

/-!
# Evaluations that take courses

What a computation notes may be part of a plan whose rest depends on the outcome.  `Res.Takes` says that
an evaluation is in order and takes such a course, and has a rule for each primitive of `Eval`.
`Planned` says of a computation that it is in order wherever it stands; what takes a course is planned.
-/

namespace ScriptEngine

variable {α β : Type}

/-- What comes after a value, and what after a signal. -/
def Course.rest (D : α → Course β) (K : Except Signal β → Plan) : Except Signal α → Plan
  | .ok a => D a K
  | .error s => K (.error s)

/-- One course after another. -/
def Course.bind (C : Course α) (D : α → Course β) : Course β := fun K => C (Course.rest D K)

/-- What is noted keeps to a course; of what has ended, whatever keeps to the rest may be noted next. -/
def Course.Taken (C : Course α) (t : List Note) : Option (Except Signal α) → Prop
  | some o => ∀ K isOver rest, (K o).Met isOver rest → (C K).Met isOver (t ++ rest)
  | none => ∀ K, (C K).Met false t

/-- An evaluation is in order after an event, and takes a course. -/
def Res.Takes (previous : Option Event) (C : Course α) (r : Res α) (h : Heap) : Prop :=
  r.Tells (fun t o => InOrder o.isSome previous t ∧ C.Taken t o) h

/-- Whatever is noted after an event is in order. -/
abbrev Res.Orderly (previous : Option Event) (r : Res α) (h : Heap) : Prop :=
  r.Tells (fun t o => InOrder o.isSome previous t) h

/-- A computation is in order wherever it stands. -/
def Planned (x : Eval α) : Prop :=
  ∀ previous c h, (x c h).Orderly previous h

namespace Res.Takes

variable {previous : Option Event} {C D : Course α} {r : Res α} {h h' : Heap}

theorem value
    (a : α) (h : Heap) :
    (Res.value a h).Takes previous (fun K => K (.ok a)) h := by
  exact ⟨[], rfl, trivial, fun _ _ _ hrest => hrest⟩

theorem raise
    (s : Signal) (h : Heap) :
    (Res.raise s h : Res α).Takes previous (fun K => K (.error s)) h := by
  exact ⟨[], rfl, trivial, fun _ _ _ hrest => hrest⟩

/-- A course may be given up for one that is met by more. -/
theorem imp
    (hr : r.Takes previous C h) (hcd : ∀ K isOver t, (C K).Met isOver t → (D K).Met isOver t) :
    r.Takes previous D h := by
  refine Tells.imp hr fun t o ⟨horder, htaken⟩ => ⟨horder, ?_⟩
  cases o with
  | none =>
      exact fun K => hcd K _ _ (htaken K)
  | some o =>
      exact fun K isOver rest hrest => hcd K _ _ (htaken K isOver rest hrest)

/-- To take one course of several is to take one of them. -/
theorem one
    {ι : Type} {Cs : ι → Course α} (i : ι) (hr : r.Takes previous (Cs i) h) :
    r.Takes previous (fun K => .oneOf fun i => Cs i K) h := by
  exact hr.imp fun K isOver t ht => ⟨i, ht⟩

theorem left
    (hr : r.Takes previous C h) :
    r.Takes previous (fun K => .either (C K) (D K)) h := by
  exact hr.imp fun K isOver t ht => ⟨true, ht⟩

theorem right
    (hr : r.Takes previous D h) :
    r.Takes previous (fun K => .either (C K) (D K)) h := by
  exact hr.imp fun K isOver t ht => ⟨false, ht⟩

/-- An event is noted first. -/
theorem noted
    {ev : Event} (hr : r.Takes (some ev) C (h.note ev)) (hfollows : Note.Follows previous ⟨ev, h.toMemory⟩)
    (hplan : ∀ isOver t, (C fun _ => .any).Met isOver t → ev.plan.Met isOver t) :
    r.Takes previous (fun K => .notes ev (C K)) h := by
  have hnotes : (h.note ev).notes = [⟨ev, h.toMemory⟩].reverse ++ h.notes := Heap.notes_note h ev
  refine Tells.after hnotes (Tells.imp hr fun t o ⟨horder, htaken⟩ => ?_)
  cases o with
  | none =>
      refine ⟨⟨hfollows, hplan _ _ (htaken _), horder⟩, fun K => ?_⟩
      exact ⟨h.toMemory, t, rfl, htaken K⟩
  | some o =>
      have hwhole := htaken (fun _ => .any) true [] trivial
      rw [List.append_nil] at hwhole
      refine ⟨⟨hfollows, hplan _ _ hwhole, horder⟩, fun K isOver rest hrest => ?_⟩
      exact ⟨h.toMemory, t ++ rest, rfl, htaken K isOver rest hrest⟩

/-- Something is changed first of which nothing is noted. -/
theorem silently
    (hnotes : h'.notes = h.notes) (hr : r.Takes previous C h') :
    r.Takes previous C h := by
  exact Tells.silently hnotes hr

/-- A change comes first of which nothing is noted. -/
theorem change_bind
    {f : Heap → β × Heap} {g : β → Eval α} {c : Context} (hnotes : (f h).2.notes = h.notes)
    (hg : (g (f h).1 c (f h).2).Takes previous C (f h).2) :
    ((Eval.change f >>= g) c h).Takes previous C h := by
  exact hg.silently hnotes

theorem modify_bind
    {f : Heap → Heap} {x : Eval α} {c : Context} (hnotes : (f h).notes = h.notes)
    (hx : (x c (f h)).Takes previous C (f h)) :
    ((Eval.modify f >>= fun _ => x) c h).Takes previous C h := by
  exact hx.silently hnotes

/-- What comes after a value of some kind has a course of its own. -/
theorem bind_of
    {x : Eval α} {f : α → Eval β} {D : α → Course β} {P : α → Prop} {c : Context}
    (hx : (x c h).Takes previous C h)
    (hvalue : (x c h).Tells (fun _ o => ∀ a, o = some (.ok a) → P a) h)
    (hf : ∀ a, P a → ∀ h' previous', (f a c h').Takes previous' (D a) h') :
    ((x >>= f) c h).Takes previous (C.bind D) h := by
  rw [Eval.bind_apply]
  refine Tells.bind (Tells.and hx hvalue)
    (fun t ⟨⟨horder, htaken⟩, _⟩ => ⟨horder, fun K => htaken (Course.rest D K)⟩)
    (fun t s ⟨⟨horder, htaken⟩, _⟩ => ⟨horder, fun K => htaken (Course.rest D K)⟩)
    fun t a h' ⟨⟨horder, htaken⟩, ha⟩ => ?_
  refine Tells.imp (hf a (ha a rfl) h' (latest previous t)) fun t' o ⟨horder', htaken'⟩ => ?_
  refine ⟨horder.append horder', ?_⟩
  cases o with
  | none =>
      exact fun K => htaken (Course.rest D K) false t' (htaken' K)
  | some o =>
      intro K isOver rest hrest
      rw [List.append_assoc]
      exact htaken (Course.rest D K) isOver _ (htaken' K isOver rest hrest)

theorem bind
    {x : Eval α} {f : α → Eval β} {D : α → Course β} {c : Context} (hx : (x c h).Takes previous C h)
    (hf : ∀ a h' previous', (f a c h').Takes previous' (D a) h') :
    ((x >>= f) c h).Takes previous (C.bind D) h := by
  exact hx.bind_of (P := fun _ => True) (Tells.imp hx fun _ _ _ _ _ => trivial) fun a _ => hf a

/-- So may what comes after an outcome, if a signal is passed on. -/
theorem bind_outcome
    {x : Eval α} {f : α → Eval β} {D : Except Signal α → Course β} {c : Context}
    (hx : (x c h).Takes previous C h)
    (hf : ∀ a h' previous', (f a c h').Takes previous' (D (.ok a)) h')
    (hD : ∀ s K, D (.error s) K = K (.error s)) :
    ((x >>= f) c h).Takes previous (fun K => C fun o => D o K) h := by
  refine (hx.bind hf).imp fun K isOver t ht => ?_
  have hrest : Course.rest (fun a => D (.ok a)) K = fun o => D o K := by
    funext o
    cases o with
    | ok a =>
        rfl
    | error s =>
        exact (hD s K).symm
  rwa [Course.bind, hrest] at ht

/-- A value may be changed. -/
theorem map
    {x : Eval α} {c : Context} (g : α → β) (hx : (x c h).Takes previous C h) :
    ((x >>= fun a => pure (g a)) c h).Takes previous (fun K => C fun o => K (o.map g)) h := by
  exact hx.bind_outcome (D := fun o K => K (o.map g)) (fun a h' _ => value (g a) h')
    fun s K => rfl

/-- Who takes an outcome goes on with it. -/
theorem attempt_bind_of
    {x : Eval α} {f : Except Signal α → Eval β} {D : Except Signal α → Course β}
    {P : Except Signal α → Prop} {c : Context} (hx : (x c h).Takes previous C h)
    (hended : (x c h).Tells (fun _ o => ∀ o', o = some o' → P o') h)
    (hf : ∀ o, P o → ∀ h' previous', (f o c h').Takes previous' (D o) h') :
    ((Eval.attempt x >>= f) c h).Takes previous (fun K => C fun o => D o K) h := by
  have hattempt : (Eval.attempt x c h).Takes previous (fun K => C fun o => K (.ok o)) h :=
    Tells.attempt hx (fun t ⟨horder, htaken⟩ => ⟨horder, fun K => htaken fun o => K (.ok o)⟩)
      fun t o ⟨horder, htaken⟩ => ⟨horder, fun K => htaken fun o => K (.ok o)⟩
  refine hattempt.bind_of (P := P) (Tells.attempt hended (fun _ _ _ heq => nomatch heq) ?_) hf
  rintro t o ho _ ⟨⟩
  exact ho o rfl

theorem attempt_bind
    {x : Eval α} {f : Except Signal α → Eval β} {D : Except Signal α → Course β} {c : Context}
    (hx : (x c h).Takes previous C h)
    (hf : ∀ o h' previous', (f o c h').Takes previous' (D o) h') :
    ((Eval.attempt x >>= f) c h).Takes previous (fun K => C fun o => D o K) h := by
  exact hx.attempt_bind_of (P := fun _ => True) (Tells.imp hx fun _ _ _ _ _ => trivial)
    fun o _ => hf o

theorem ofOutcome
    (o : Except Signal α) (c : Context) (h : Heap) :
    (Eval.ofOutcome o c h).Takes previous (fun K => K o) h := by
  cases o with
  | ok a =>
      exact value a h
  | error s =>
      exact raise s h

theorem mapFault
    (f : Fault → Fault) (hr : r.Takes previous C h) :
    (r.mapFault f).Takes previous (fun K => C fun o => K (faultsMapped f o)) h := by
  exact Tells.mapFault hr
    (fun t ⟨horder, htaken⟩ => ⟨horder, fun K => htaken fun o => K (faultsMapped f o)⟩)
    fun t o ⟨horder, htaken⟩ => ⟨horder, fun K => htaken fun o => K (faultsMapped f o)⟩

/-- A fault is noted and raised. -/
theorem fault
    (cause : Cause) (c : Context) (h : Heap) :
    ((Eval.fault cause : Eval α) c h).Takes previous
      (fun K => .notes (.faulted cause) (K (.error (.fault (.ofCause cause))))) h := by
  exact noted (raise _ _) trivial fun _ _ _ => trivial

/-- What only asks may fail before anything else. -/
theorem inquires_bind
    {x : Eval β} {f : β → Eval α} {c : Context} (hx : Eval.Inquires x)
    (hf : ∀ b, (f b c h).Takes previous C h) :
    ((x >>= f) c h).Takes previous (fun K => .either (.fails K) (C K)) h := by
  rw [Eval.bind_apply]
  obtain ⟨b, hvalue⟩ | ⟨cause, hfault⟩ := hx c h
  · rw [hvalue]
    exact (hf b).right
  · rw [hfault]
    exact .left (.one cause (fault cause c h))

/-- A fault that is lost is noted before anything else. -/
theorem supersede_bind
    (o : Except Signal β) {x : Eval α} {c : Context}
    (hx : ∀ h' previous', (x c h').Takes previous' C h') :
    ((Eval.supersede o >>= fun _ => x) c h).Takes previous (fun K => .superseded o (C K)) h := by
  match o with
  | .ok b => exact hx _ _
  | .error (.thrown e) => exact hx _ _
  | .error (.fault f) => exact noted (hx _ _) trivial fun _ _ _ => trivial

end Res.Takes

/-- Of a fault may be told what goes for every signal. -/
theorem Res.Tells.fault
    {P : Res.Tale α} (cause : Cause) (c : Context) (h : Heap) (hP : ∀ t s, P t (some (.error s))) :
    ((Eval.fault cause : Eval α) c h).Tells P h := by
  exact ⟨[⟨.faulted cause, h.toMemory⟩], Heap.notes_note h _, hP _ _⟩

/-! ### Computations in order -/

namespace Res.Orderly

variable {previous : Option Event} {x : Eval α} {c : Context} {h : Heap}

/-- What takes a course is in order. -/
theorem of_takes
    {C : Course α} {r : Res α} (hr : r.Takes previous C h) :
    r.Orderly previous h := by
  exact Tells.imp hr fun _ _ ht => ht.1

/-- What is in order after an event may be followed by what is in order anywhere. -/
theorem bind
    {f : α → Eval β} (hx : (x c h).Orderly previous h) (hf : ∀ a, Planned (f a)) :
    ((x >>= f) c h).Orderly previous h := by
  rw [Eval.bind_apply]
  refine Tells.bind hx (fun _ ht => ht) (fun _ _ ht => ht) fun t a h' ht => ?_
  exact (hf a (latest previous t) c h').imp fun _ _ ht' => ht.append ht'

theorem attempt
    (hx : (x c h).Orderly previous h) :
    (Eval.attempt x c h).Orderly previous h := by
  exact Tells.attempt hx (fun _ ht => ht) fun _ _ ht => ht

end Res.Orderly

namespace Planned

variable {x : Eval α}

theorem pure
    (a : α) :
    Planned (Pure.pure a : Eval α) := by
  exact fun _ _ h => ⟨[], rfl, trivial⟩

theorem raise
    (s : Signal) :
    Planned (Eval.raise s : Eval α) := by
  exact fun _ _ h => ⟨[], rfl, trivial⟩

theorem giveUp :
    Planned (Eval.giveUp : Eval α) := by
  exact fun _ _ _ => trivial

theorem bind
    {f : α → Eval β} (hx : Planned x) (hf : ∀ a, Planned (f a)) :
    Planned (x >>= f) := by
  exact fun previous c h => (hx previous c h).bind hf

theorem attempt
    (hx : Planned x) :
    Planned (Eval.attempt x) := by
  exact fun previous c h => (hx previous c h).attempt

theorem ofOutcome
    (o : Except Signal α) :
    Planned (Eval.ofOutcome o) := by
  cases o with
  | ok a =>
      exact pure a
  | error s =>
      exact raise s

theorem mapFault
    (f : Fault → Fault) (hx : Planned x) :
    Planned (Eval.mapFault f x) := by
  exact fun previous c h => (hx previous c h).mapFault (fun _ ht => ht) fun _ _ ht => ht

/-- An event that plans nothing. -/
theorem note
    {ev : Event} (hplan : ev.plan = .any)
    (hfollows : ∀ previous m, Note.Follows previous ⟨ev, m⟩) :
    Planned (Eval.note ev) := by
  intro previous c h
  refine ⟨[⟨ev, h.toMemory⟩], Heap.notes_note h ev, hfollows previous _, ?_, trivial⟩
  rw [hplan]
  trivial

/-- A change of the heap of which nothing is noted. -/
theorem change
    {f : Heap → α × Heap} (hf : ∀ h, (f h).2.notes = h.notes) :
    Planned (Eval.change f) := by
  exact fun _ _ h => ⟨[], hf h, trivial⟩

theorem modify
    {f : Heap → Heap} (hf : ∀ h, (f h).notes = h.notes) :
    Planned (Eval.modify f) := by
  exact change (f := fun h => ((), f h)) hf

theorem currentFrame :
    Planned Eval.currentFrame := by
  exact fun _ _ h => ⟨[], rfl, trivial⟩

theorem await
    {b : Blocker} {step : Heap → Option (α × Heap)}
    (hstep : ∀ h a h', step h = some (a, h') → h'.notes = h.notes) :
    Planned (Eval.await b step) := by
  intro previous c h
  unfold Eval.await
  split
  · next a h' hs =>
      exact ⟨[], hstep _ _ _ hs, trivial⟩
  · refine ⟨[], rfl, trivial, fun h' => ?_⟩
    dsimp only
    split
    · next a h'' hs =>
        exact ⟨[], hstep _ _ _ hs, trivial⟩
    · trivial

theorem yield :
    Planned Eval.yield := by
  exact fun _ _ h => ⟨[], rfl, trivial, fun h' => ⟨[], rfl, trivial⟩⟩

theorem fault
    (cause : Cause) :
    Planned (Eval.fault cause : Eval α) := by
  exact bind (note rfl fun _ _ => trivial) fun _ => raise _

theorem throwValue
    (e : Exception) :
    Planned (Eval.throwValue e : Eval α) := by
  exact bind (note rfl fun _ _ => trivial) fun _ => raise _

theorem join
    (id : Nat) :
    Planned (Builtin.awaitThread id) := by
  unfold Builtin.awaitThread
  refine bind (await fun h a h' hs => ?_) fun outcome => ?_
  · obtain ⟨outcome, -, heq⟩ := Option.map_eq_some_iff.mp hs
    cases heq
    rfl
  · split
    · exact pure _
    · exact throwValue _
    · exact raise _

theorem afterwards
    {f : Heap → Heap} (hx : Planned x) (hf : ∀ h, (f h).notes = h.notes) :
    Planned (Eval.afterwards x f) := by
  exact bind (attempt hx) fun outcome => bind (modify hf) fun _ => ofOutcome outcome

theorem diverting
    {handler : Exception → Eval α} (hx : Planned x) (hhandler : ∀ e, Planned (handler e)) :
    Planned (Eval.diverting x handler) := by
  refine bind (note rfl fun _ _ => trivial) fun _ => bind (attempt hx) fun outcome => ?_
  split
  · exact bind (note rfl fun _ _ => trivial) fun _ => hhandler _
  · exact bind (note rfl fun _ _ => trivial) fun _ => ofOutcome _

/-- A part is in order that takes the course which it plans. -/
theorem tracked
    {a : Act} {flow : α → Flow} {C : Option ScopeId → Course α}
    (hplan : ∀ frame isOver t, (C frame fun o => .notes (.ended a (o.map flow)) .any).Met isOver t →
      (Event.began frame a).plan.Met isOver t)
    (hx : ∀ c h, (x c h).Takes (some (.began c.frame a)) (C c.frame) h) :
    Planned (Eval.tracked a flow x) := by
  intro previous c h
  have htail : ((Eval.attempt x >>= fun outcome =>
      Eval.note (.ended a (outcome.map flow)) >>= fun _ => Eval.ofOutcome outcome) c
      (h.note (.began c.frame a))).Takes (some (.began c.frame a))
        (fun K => C c.frame fun o => .notes (.ended a (o.map flow)) (K o))
        (h.note (.began c.frame a)) :=
    (hx c _).attempt_bind fun o h' _ =>
      .noted (.ofOutcome o c _) trivial fun _ _ _ => trivial
  have hwhole : (Eval.tracked a flow x c h).Takes previous (fun K => .notes (.began c.frame a)
      (C c.frame fun o => .notes (.ended a (o.map flow)) (K o))) h :=
    .noted htail trivial (hplan c.frame)
  exact .of_takes hwhole

/-- A part that plans nothing is in order if its evaluation is. -/
theorem tracked_plain
    {a : Act} {flow : α → Flow} (hplan : ∀ frame, (Event.began frame a).plan = .any)
    (hx : Planned x) :
    Planned (Eval.tracked a flow x) := by
  refine bind currentFrame fun frame => bind (note (hplan frame) fun _ _ => trivial) fun _ => ?_
  exact bind (attempt hx) fun outcome => bind (note rfl fun _ _ => trivial) fun _ =>
    ofOutcome outcome

end Planned

end ScriptEngine
