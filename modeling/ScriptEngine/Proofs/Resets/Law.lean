import ScriptEngine.Proofs.Resets.Writing

/-!
# Evaluations that overlook what is old

Two runs of a computation, on a heap and on the same heap without what is old, are `Parallel` if
they come to the same: the same value or signal, or they wait for the same, and the heaps differ in
nothing but what is forgotten.  What they come to mentions nothing old.

A computation is `Oblivious` if its runs are parallel on every renewed heap.  Each operation of
`Eval` has a rule here, so a function of the evaluator is oblivious if its parts are.
-/

namespace ScriptEngine

/-- Two evaluations come to the same, apart from what is older than an epoch. -/
inductive Parallel (t : Epoch) {α : Type} (P : α → Prop) : Res α → Res α → Prop
  | value {a : α} {h : Heap} :
      P a → h.Renewed t → Parallel t P (.value a h) (.value a (h.forget t))
  | raise {s : Signal} {h : Heap} :
      Recent t s → h.Renewed t → Parallel t P (.raise s h) (.raise s (h.forget t))
  | blocked {b : Blocker} {h : Heap} {resume resume' : Heap → Res α} :
      Recent t b → h.Renewed t →
      (∀ h', h'.Renewed t → Parallel t P (resume h') (resume' (h'.forget t))) →
      Parallel t P (.blocked b h resume) (.blocked b (h.forget t) resume')
  | outOfFuel :
      Parallel t P .outOfFuel .outOfFuel

/-- What is known of an outcome: that of a value, and that a signal mentions nothing old. -/
def Ended (t : Epoch) {α : Type} (P : α → Prop) : Except Signal α → Prop
  | .ok a => P a
  | .error s => Recent t s

theorem ended_recent
    {t : Epoch} {α : Type} [Dated α] {o : Except Signal α} :
    Ended t (Recent t) o ↔ Recent t o := by
  cases o <;> exact Iff.rfl

namespace Parallel

variable {t : Epoch} {α β : Type} {P : α → Prop} {Q : β → Prop} {r r' : Res α}

theorem bind
    {f f' : α → Heap → Res β} (hr : Parallel t P r r')
    (hf : ∀ a h, P a → h.Renewed t → Parallel t Q (f a h) (f' a (h.forget t))) :
    Parallel t Q (r.bind f) (r'.bind f') := by
  induction hr with
  | value ha hh =>
      exact hf _ _ ha hh
  | raise hs hh =>
      exact .raise hs hh
  | blocked hb hh _ ih =>
      exact .blocked hb hh ih
  | outOfFuel =>
      exact .outOfFuel

theorem attempt
    (hr : Parallel t P r r') :
    Parallel t (Ended t P) r.attempt r'.attempt := by
  induction hr with
  | value ha hh =>
      exact .value ha hh
  | raise hs hh =>
      exact .value hs hh
  | blocked hb hh _ ih =>
      exact .blocked hb hh ih
  | outOfFuel =>
      exact .outOfFuel

theorem mapFault
    (f : Fault → Fault) (hr : Parallel t P r r') :
    Parallel t P (r.mapFault f) (r'.mapFault f) := by
  induction hr with
  | value ha hh =>
      exact .value ha hh
  | @raise s h hs hh =>
      cases s with
      | thrown e =>
          exact .raise hs hh
      | fault e =>
          exact .raise recent_fault hh
  | blocked hb hh _ ih =>
      exact .blocked hb hh ih
  | outOfFuel =>
      exact .outOfFuel

end Parallel

/-- On every renewed heap a computation comes to the same whether or not the old is forgotten. -/
def Oblivious (t : Epoch) {α : Type} (x : Eval α) (P : α → Prop) : Prop :=
  ∀ c h, h.Renewed t → Parallel t P (x c h) (x c (h.forget t))

namespace Oblivious

variable {t : Epoch} {α β σ : Type} {P P' : α → Prop} {Q : β → Prop} {x : Eval α}

theorem pure
    {a : α} (ha : P a) :
    Oblivious t (Pure.pure a) P := by
  exact fun _ _ hh => .value ha hh

theorem bind
    {f : α → Eval β} (hx : Oblivious t x P) (hf : ∀ a, P a → Oblivious t (f a) Q) :
    Oblivious t (x >>= f) Q := by
  intro c h hh
  rw [Eval.bind_apply, Eval.bind_apply]
  exact (hx c h hh).bind fun a h' ha hh' => hf a ha c h' hh'

theorem imp
    (hx : Oblivious t x P) (hp : ∀ a, P a → P' a) :
    Oblivious t x P' := by
  have hbind : Oblivious t (x >>= Pure.pure) P' := hx.bind fun a ha => pure (hp a ha)
  rwa [bind_pure] at hbind

theorem map
    (f : α → β) (hx : Oblivious t x P) (hf : ∀ a, P a → Q (f a)) :
    Oblivious t (f <$> x) Q := by
  rw [map_eq_pure_bind]
  exact hx.bind fun a ha => pure (hf a ha)

theorem ite
    {p : Prop} [Decidable p] {y : Eval α} (hx : p → Oblivious t x P)
    (hy : ¬p → Oblivious t y P) :
    Oblivious t (if p then x else y) P := by
  split
  · next hp => exact hx hp
  · next hp => exact hy hp

/-! ### The heap -/

/-- What is done with a heap that is looked at is the same whether or not the old is forgotten. -/
theorem look
    {f : Heap → Eval α} (hsame : ∀ h, h.Renewed t → f (h.forget t) = f h)
    (hf : ∀ h, h.Renewed t → Oblivious t (f h) P) :
    Oblivious t (Eval.heap >>= f) P := by
  intro c h hh
  rw [Eval.bind_apply, Eval.bind_apply]
  have hgoal : Parallel t P (f h c h) (f (h.forget t) c (h.forget t)) := by
    rw [hsame h hh]
    exact hf h hh c h hh
  exact hgoal

theorem change
    {f : Heap → α × Heap} (hf : Yields t P f) :
    Oblivious t (Eval.change f) P := by
  intro c h hh
  obtain ⟨hsame, hrenewed, hp⟩ := hf h hh
  rw [Eval.change_apply, Eval.change_apply, hsame]
  exact .value hp hrenewed

theorem modify
    {f : Heap → Heap} (hf : Overlooks t f) :
    Oblivious t (Eval.modify f) fun _ => True := by
  intro c h hh
  obtain ⟨hsame, hrenewed⟩ := hf h hh
  have hgoal : Parallel t (fun _ => True) (Res.value () (f h)) (.value () (f (h.forget t))) := by
    rw [hsame]
    exact .value trivial hrenewed
  exact hgoal

theorem note
    (e : Event) :
    Oblivious t (Eval.note e) fun _ => True := by
  exact modify (.note e)

/-! ### Signals -/

theorem raise
    {s : Signal} (hs : Recent t s) :
    Oblivious t (Eval.raise s : Eval α) P := by
  exact fun _ _ hh => .raise hs hh

theorem giveUp : Oblivious t (Eval.giveUp : Eval α) P := by
  exact fun _ _ _ => .outOfFuel

theorem fault
    (c : Cause) :
    Oblivious t (Eval.fault c : Eval α) P := by
  exact (note _).bind fun _ _ => raise recent_fault

theorem throwValue
    {e : Exception} (he : Recent t e.value) :
    Oblivious t (Eval.throwValue e : Eval α) P := by
  exact (note _).bind fun _ _ => raise he

/-- What comes after a check that may fail. -/
theorem guarded
    {p : Prop} [Decidable p] {f : Unit → Eval α} (c : Cause) (hf : Oblivious t (f ()) P) :
    Oblivious t (if p then Eval.fault c >>= f else f ()) P := by
  refine ite (fun _ => ?_) fun _ => hf
  exact (fault (P := fun _ => False) c).bind fun _ hnever => hnever.elim

theorem unlessFault
    (c : Option Cause) :
    Oblivious t (Eval.unlessFault c) fun _ => True := by
  cases c with
  | none =>
      exact pure trivial
  | some c =>
      exact fault c

theorem ofExcept
    {r : Except Cause α} (hr : ∀ a, r = .ok a → P a) :
    Oblivious t (Eval.ofExcept r) P := by
  cases r with
  | ok a =>
      exact pure (hr a rfl)
  | error c =>
      exact fault c

/-! ### Outcomes -/

theorem attempt
    (hx : Oblivious t x P) :
    Oblivious t (Eval.attempt x) (Ended t P) := by
  exact fun c h hh => (hx c h hh).attempt

theorem ofOutcome
    {o : Except Signal α} (ho : Ended t P o) :
    Oblivious t (Eval.ofOutcome o) P := by
  cases o with
  | ok a =>
      exact pure ho
  | error s =>
      exact raise ho

theorem supersede
    (o : Except Signal α) :
    Oblivious t (Eval.supersede o) fun _ => True := by
  unfold Eval.supersede
  split
  · exact note _
  · exact pure trivial

theorem catching
    {clauses : List (CatchClause Stmt)} {handler : CatchClause Stmt → Exception → Eval α}
    (hx : Oblivious t x P) (hhandler : ∀ c e, Recent t e → Oblivious t (handler c e) P) :
    Oblivious t (Eval.catching clauses x handler) P := by
  refine (note _).bind fun _ _ => (attempt hx).bind fun o ho => ?_
  split
  · next e =>
      have he : Recent t e := ho
      refine look (fun h hh => ?_) fun h _ => ?_
      · have hkinds : (h.forget t).instanceOf e.value = h.instanceOf e.value :=
          funext fun type => Heap.instanceOf_forget hh he type
        rw [hkinds]
      · split
        · exact (note _).bind fun _ _ => hhandler _ e he
        · exact (note _).bind fun _ _ => raise he
  · exact (note _).bind fun _ _ => ofOutcome ho

theorem diverting
    {handler : Exception → Eval α} (hx : Oblivious t x P)
    (hhandler : ∀ e, Recent t e → Oblivious t (handler e) P) :
    Oblivious t (Eval.diverting x handler) P := by
  refine (note _).bind fun _ _ => (attempt hx).bind fun o ho => ?_
  split
  · exact (note _).bind fun _ _ => hhandler _ ho
  · exact (note _).bind fun _ _ => ofOutcome ho

theorem afterwards
    {f : Heap → Heap} (hx : Oblivious t x P) (hf : Overlooks t f) :
    Oblivious t (Eval.afterwards x f) P := by
  exact (attempt hx).bind fun _ ho => (modify hf).bind fun _ _ => ofOutcome ho

theorem mapFault
    {f : Fault → Fault} (hx : Oblivious t x P) :
    Oblivious t (Eval.mapFault f x) P := by
  exact fun c h hh => (hx c h hh).mapFault f

theorem within
    {frame : ScopeId} (hx : Oblivious t x P) :
    Oblivious t (Eval.within frame x) P := by
  exact fun c h hh => hx { c with frame := some frame } h hh

/-- The frame whose code runs is only told. -/
theorem inFrame
    {f : Option ScopeId → Eval α} (hf : ∀ frame, Oblivious t (f frame) P) :
    Oblivious t (Eval.currentFrame >>= f) P := by
  exact fun c h hh => hf c.frame c h hh

theorem admitted
    (hx : Oblivious t x P) :
    Oblivious t (Eval.admitted x) P := by
  intro c h hh
  unfold Eval.admitted
  split
  · exact ((note _).bind fun _ _ => fault _) c h hh
  · exact hx { c with depth := c.depth + 1 } h hh

theorem tracked
    {a : Act} {flow : α → Flow} (hx : Oblivious t x P) :
    Oblivious t (Eval.tracked a flow x) P := by
  exact inFrame fun _ => (note _).bind fun _ _ => (attempt hx).bind fun _ ho =>
    (note _).bind fun _ _ => ofOutcome ho

theorem deeper
    {i : Invocation} {args : List Value} {x : Eval Value} {P : Value → Prop}
    (hx : Oblivious t x P) :
    Oblivious t (Eval.deeper i args x) P := by
  exact (note _).bind fun _ _ => (attempt (admitted hx)).bind fun _ ho =>
    (note _).bind fun _ _ => ofOutcome ho

/-! ### Waiting -/

theorem yield : Oblivious t Eval.yield fun _ => True := by
  exact fun _ _ hh => .blocked trivial hh fun _ hh' => .value trivial hh'

/-- A step that is done has the same result. -/
private theorem stepped
    {step : Heap → Option (α × Heap)} {r r' : Res α} {h : Heap} (hstep : Tries t P step)
    (hh : h.Renewed t) (hr : Parallel t P r r') :
    Parallel t P
      (match step h with
        | some (a, h) => .value a h
        | none => r)
      (match step (h.forget t) with
        | some (a, h) => .value a h
        | none => r') := by
  obtain ⟨hsame, hdone⟩ := hstep h hh
  rw [hsame]
  cases hs : step h with
  | none =>
      exact hr
  | some p =>
      obtain ⟨ha, hrenewed⟩ := hdone p hs
      exact .value ha hrenewed

theorem await
    {b : Blocker} {step : Heap → Option (α × Heap)} (hb : Recent t b) (hstep : Tries t P step) :
    Oblivious t (Eval.await b step) P := by
  intro c h hh
  refine stepped hstep hh (.blocked hb hh fun h' hh' => ?_)
  exact stepped hstep hh' .outOfFuel

/-! ### Lists and loops -/

theorem mapM
    {ι : Type} {f : ι → Eval α} {xs : List ι} (hf : ∀ a ∈ xs, Oblivious t (f a) P) :
    Oblivious t (xs.mapM f) fun ys => ∀ y ∈ ys, P y := by
  induction xs with
  | nil =>
      exact pure nofun
  | cons a xs ih =>
      obtain ⟨hfirst, hrest⟩ := List.forall_mem_cons.mp hf
      rw [List.mapM_cons]
      refine hfirst.bind fun y hy => (ih hrest).bind fun ys hys => pure ?_
      exact List.forall_mem_cons.mpr ⟨hy, hys⟩

theorem forM
    {ι : Type} {f : ι → Eval PUnit} {xs : List ι}
    (hf : ∀ a ∈ xs, Oblivious t (f a) fun _ => True) :
    Oblivious t (xs.forM f) fun _ => True := by
  induction xs with
  | nil =>
      exact pure trivial
  | cons a xs ih =>
      obtain ⟨hfirst, hrest⟩ := List.forall_mem_cons.mp hf
      exact hfirst.bind fun _ _ => ih hrest

theorem foldlM
    {ι : Type} {f : β → ι → Eval β} {b : β} {xs : List ι} (hb : Q b)
    (hf : ∀ b, Q b → ∀ a ∈ xs, Oblivious t (f b a) Q) :
    Oblivious t (xs.foldlM f b) Q := by
  induction xs generalizing b with
  | nil =>
      exact pure hb
  | cons a xs ih =>
      rw [List.foldlM_cons]
      refine (hf b hb a List.mem_cons_self).bind fun c hc => ih hc fun d hd e he => ?_
      exact hf d hd e (List.mem_cons_of_mem _ he)

theorem filterMapM
    {ι : Type} {f : ι → Eval (Option α)} {xs : List ι}
    (hf : ∀ a ∈ xs, Oblivious t (f a) fun o => ∀ y, o = some y → P y) :
    Oblivious t (xs.filterMapM f) fun ys => ∀ y ∈ ys, P y := by
  unfold List.filterMapM
  suffices hloop : ∀ found, (∀ y ∈ found, P y) →
      Oblivious t (List.filterMapM.loop f xs found) fun ys => ∀ y ∈ ys, P y from hloop [] nofun
  induction xs with
  | nil =>
      exact fun found hfound => pure (by simpa using hfound)
  | cons a xs ih =>
      obtain ⟨hfirst, hrest⟩ := List.forall_mem_cons.mp hf
      intro found hfound
      unfold List.filterMapM.loop
      refine hfirst.bind fun o ho => ?_
      cases o with
      | none =>
          exact ih hrest found hfound
      | some y =>
          exact ih hrest (y :: found) (List.forall_mem_cons.mpr ⟨ho y rfl, hfound⟩)

theorem findM?
    {p : α → Eval Bool} {xs : List α} (hxs : ∀ a ∈ xs, P a)
    (hp : ∀ a ∈ xs, Oblivious t (p a) fun _ => True) :
    Oblivious t (xs.findM? p) fun o => ∀ a, o = some a → P a := by
  induction xs with
  | nil =>
      exact pure nofun
  | cons a xs ih =>
      obtain ⟨ha, hxs⟩ := List.forall_mem_cons.mp hxs
      obtain ⟨hfirst, hrest⟩ := List.forall_mem_cons.mp hp
      unfold List.findM?
      refine hfirst.bind fun found _ => ?_
      split
      · refine pure ?_
        rintro _ ⟨⟩
        exact ha
      · exact ih hxs hrest

/-- A turn may be given away before what follows. -/
private theorem atStride
    {p : Prop} [Decidable p] {x : Unit → Eval α} (hx : Oblivious t (x ()) P) :
    Oblivious t (if p then Eval.yield >>= x else x ()) P := by
  split
  · exact yield.bind fun _ _ => hx
  · exact hx

/-- What is known of the state that a round of a loop leaves, or of its result. -/
def Next {σ α : Type} (S : σ → Prop) (P : α → Prop) : σ ⊕ α → Prop
  | .inl s => S s
  | .inr a => P a

theorem iterate
    {S : σ → Prop} {body : σ → Eval (σ ⊕ α)} (fuel : Nat) {s : σ} (hs : S s)
    (hbody : ∀ s, S s → Oblivious t (body s) (Next S P)) :
    Oblivious t (Eval.iterate fuel body s) P := by
  suffices hfrom : ∀ round s, S s → Oblivious t (Eval.iterateFrom body fuel round s) P from
    hfrom 1 s hs
  induction fuel with
  | zero =>
      exact fun round s hs => giveUp
  | succ fuel ih =>
      intro round s hs
      unfold Eval.iterateFrom
      refine atStride ((hbody s hs).bind fun next hnext => ?_)
      cases next with
      | inl s =>
          exact ih (round + 1) s hnext
      | inr a =>
          exact pure hnext

end Oblivious

/-- An engine whose computations overlook what is old. -/
class Unmindful (t : Epoch) (E : Engine) : Prop where
  eval : ∀ {env : Env}, Recent t env → ∀ e, Oblivious t (E.eval e env) (Recent t)
  exec : ∀ {env : Env}, Recent t env → ∀ s, Oblivious t (E.exec s env) (Recent t)
  call : ∀ {callee : Value} {args : List Value} (typeArgs : List TypeExpr) (site : Span),
    Recent t callee → Recent t args → Oblivious t (E.call callee args typeArgs site) (Recent t)
  text : ∀ {v : Value}, Recent t v → Oblivious t (E.text v) fun _ => True

end ScriptEngine
