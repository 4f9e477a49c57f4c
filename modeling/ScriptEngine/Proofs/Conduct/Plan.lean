import ScriptEngine.Proofs.Evaluation.Arguments
import ScriptEngine.Proofs.Evaluation.Laws

/-!
# What events are tied to

A thread runs in stretches, and between two of them other threads change the heap.  `Res.Runs` tells
what the thread itself notes in all its stretches, whatever heap it finds when it goes on.
`Res.Tells` says that whatever an evaluation notes, and its outcome if it has ended, have a property.

An event is noted beside a step of an evaluation.  This module says which step that is.

**Plans.** A `Plan` says what a thread has to note next: an event, or all that it notes while it
performs a part of the program.  What is performed is meant literally: `Performs` asks for a run of the
engine on that part, by the code of that frame.

**Events.** `Event.plan` gives the plan that an event starts.  A statement that defers a call defers
this call; a frame is entered to run its code, and left when each of its deferred calls has been
evaluated, the last one first; the body of a try is run, and the clause that takes what it throws; a
call that is not refused enters a frame for its body; an instance gets its fields by the initializers
of its classes, the oldest ancestor's first, and then its constructor is called.

**Notes in order.** `InOrder` says of what a thread has noted that each event is followed by what it
plans, so far as the thread has come.
-/

namespace ScriptEngine

/-! ### What runs tell -/

/-- From one heap to another one thing only is noted. -/
theorem Heap.notes_inj
    {h h' : Heap} {t t' : List Note} (hnotes : h'.notes = t.reverse ++ h.notes)
    (hnotes' : h'.notes = t'.reverse ++ h.notes) :
    t' = t := by
  exact List.reverse_inj.mp (List.append_cancel_right (hnotes'.symm.trans hnotes))

namespace Res

variable {α β : Type}

/-- What a thread notes from a heap on, the oldest first, and how it ends, if it has ended. -/
inductive Runs : Res α → Heap → List Note → Option (Except Signal α × Heap) → Prop
  | value {a : α} {h h' : Heap} {t : List Note} :
      h'.notes = t.reverse ++ h.notes → Runs (.value a h') h t (some (.ok a, h'))
  | raise {signal : Signal} {h h' : Heap} {t : List Note} :
      h'.notes = t.reverse ++ h.notes → Runs (.raise signal h') h t (some (.error signal, h'))
  | waits {b : Blocker} {h h' : Heap} {resume : Heap → Res α} {t : List Note} :
      h'.notes = t.reverse ++ h.notes → Runs (.blocked b h' resume) h t none
  /-- A thread that has waited goes on with the heap that it finds. -/
  | resumes {b : Blocker} {h h' h'' : Heap} {resume : Heap → Res α} {t t' : List Note}
      {ended : Option (Except Signal α × Heap)} :
      h'.notes = t.reverse ++ h.notes → Runs (resume h'') h'' t' ended →
      Runs (.blocked b h' resume) h (t ++ t') ended

/-- A property of what is noted, and of the outcome of what has ended. -/
abbrev Tale (α : Type) := List Note → Option (Except Signal α) → Prop

/-- Whatever an evaluation notes from a heap on has a property. -/
def Tells : Res α → Tale α → Heap → Prop
  | .value a h', P, h => ∃ t, h'.notes = t.reverse ++ h.notes ∧ P t (some (.ok a))
  | .raise s h', P, h => ∃ t, h'.notes = t.reverse ++ h.notes ∧ P t (some (.error s))
  | .blocked _ h' resume, P, h =>
      ∃ t, h'.notes = t.reverse ++ h.notes ∧ P t none ∧
        ∀ h'', Tells (resume h'') (fun t' => P (t ++ t')) h''
  | .outOfFuel, _, _ => True

/-- An outcome with a fault changed. -/
def faultsMapped (f : Fault → Fault) : Except Signal α → Except Signal α
  | .error (.fault e) => .error (.fault (f e))
  | o => o

namespace Tells

variable {P Q : Tale α} {r : Res α} {h h' : Heap} {t : List Note}

theorem imp
    (hr : r.Tells P h) (hpq : ∀ t o, P t o → Q t o) :
    r.Tells Q h := by
  induction r generalizing P Q h with
  | value a h₁ =>
      obtain ⟨t, hnotes, hp⟩ := hr
      exact ⟨t, hnotes, hpq _ _ hp⟩
  | raise s h₁ =>
      obtain ⟨t, hnotes, hp⟩ := hr
      exact ⟨t, hnotes, hpq _ _ hp⟩
  | blocked b h₁ resume ih =>
      obtain ⟨t, hnotes, hp, hrest⟩ := hr
      exact ⟨t, hnotes, hpq _ _ hp, fun h₂ => ih h₂ (hrest h₂) fun _ _ => hpq _ _⟩
  | outOfFuel =>
      trivial

/-- Two things may be told of one evaluation. -/
theorem and
    (hp : r.Tells P h) (hq : r.Tells Q h) :
    r.Tells (fun t o => P t o ∧ Q t o) h := by
  induction r generalizing P Q h with
  | value a h₁ =>
      obtain ⟨t, hnotes, hp⟩ := hp
      obtain ⟨t', hnotes', hq⟩ := hq
      cases Heap.notes_inj hnotes hnotes'
      exact ⟨_, hnotes, hp, hq⟩
  | raise s h₁ =>
      obtain ⟨t, hnotes, hp⟩ := hp
      obtain ⟨t', hnotes', hq⟩ := hq
      cases Heap.notes_inj hnotes hnotes'
      exact ⟨_, hnotes, hp, hq⟩
  | blocked b h₁ resume ih =>
      obtain ⟨t, hnotes, hp, hrest⟩ := hp
      obtain ⟨t', hnotes', hq, hrest'⟩ := hq
      cases Heap.notes_inj hnotes hnotes'
      exact ⟨_, hnotes, ⟨hp, hq⟩, fun h₂ => ih h₂ (hrest h₂) (hrest' h₂)⟩
  | outOfFuel =>
      trivial

/-- Something may be noted before an evaluation. -/
theorem after
    (hnotes : h'.notes = t.reverse ++ h.notes) (hr : r.Tells (fun t' => P (t ++ t')) h') :
    r.Tells P h := by
  have hmore {h₁ : Heap} {t' : List Note} (hnotes' : h₁.notes = t'.reverse ++ h'.notes) :
      h₁.notes = (t ++ t').reverse ++ h.notes := by
    rw [hnotes', hnotes, List.reverse_append, List.append_assoc]
  cases r with
  | value a h₁ =>
      obtain ⟨t', hnotes', hp⟩ := hr
      exact ⟨t ++ t', hmore hnotes', hp⟩
  | raise s h₁ =>
      obtain ⟨t', hnotes', hp⟩ := hr
      exact ⟨t ++ t', hmore hnotes', hp⟩
  | blocked b h₁ resume =>
      obtain ⟨t', hnotes', hp, hrest⟩ := hr
      exact ⟨t ++ t', hmore hnotes', hp, fun h₂ => (hrest h₂).imp fun t₂ o ho => by
        rwa [List.append_assoc]⟩
  | outOfFuel =>
      trivial

/-- A change of which nothing is noted may come before an evaluation. -/
theorem silently
    (hnotes : h'.notes = h.notes) (hr : r.Tells P h') :
    r.Tells P h := by
  exact after (t := []) hnotes hr

theorem bind
    {f : α → Heap → Res β} {Q : Tale β} (hr : r.Tells P h)
    (hwaits : ∀ t, P t none → Q t none)
    (hraise : ∀ t s, P t (some (.error s)) → Q t (some (.error s)))
    (hf : ∀ t a h', P t (some (.ok a)) → (f a h').Tells (fun t' => Q (t ++ t')) h') :
    (r.bind f).Tells Q h := by
  induction r generalizing P Q h with
  | value a h₁ =>
      obtain ⟨t, hnotes, hp⟩ := hr
      exact after hnotes (hf t a h₁ hp)
  | raise s h₁ =>
      obtain ⟨t, hnotes, hp⟩ := hr
      exact ⟨t, hnotes, hraise t s hp⟩
  | blocked b h₁ resume ih =>
      obtain ⟨t, hnotes, hp, hrest⟩ := hr
      refine ⟨t, hnotes, hwaits t hp, fun h₂ => ih h₂ (hrest h₂) (fun _ => hwaits _)
        (fun _ => hraise _) fun t' a h₃ hp' => ?_⟩
      exact (hf (t ++ t') a h₃ hp').imp fun t₂ o ho => by rwa [← List.append_assoc]
  | outOfFuel =>
      trivial

theorem attempt
    {Q : Tale (Except Signal α)} (hr : r.Tells P h) (hwaits : ∀ t, P t none → Q t none)
    (hends : ∀ t o, P t (some o) → Q t (some (.ok o))) :
    r.attempt.Tells Q h := by
  induction r generalizing P Q h with
  | value a h₁ =>
      obtain ⟨t, hnotes, hp⟩ := hr
      exact ⟨t, hnotes, hends _ _ hp⟩
  | raise s h₁ =>
      obtain ⟨t, hnotes, hp⟩ := hr
      exact ⟨t, hnotes, hends _ _ hp⟩
  | blocked b h₁ resume ih =>
      obtain ⟨t, hnotes, hp, hrest⟩ := hr
      exact ⟨t, hnotes, hwaits t hp, fun h₂ => ih h₂ (hrest h₂) (fun _ => hwaits _) fun _ => hends _⟩
  | outOfFuel =>
      trivial

theorem mapFault
    {f : Fault → Fault} (hr : r.Tells P h) (hwaits : ∀ t, P t none → Q t none)
    (hends : ∀ t o, P t (some o) → Q t (some (faultsMapped f o))) :
    (r.mapFault f).Tells Q h := by
  induction r generalizing P Q h with
  | value a h₁ =>
      obtain ⟨t, hnotes, hp⟩ := hr
      exact ⟨t, hnotes, hends _ _ hp⟩
  | raise s h₁ =>
      obtain ⟨t, hnotes, hp⟩ := hr
      cases s with
      | thrown e =>
          exact ⟨t, hnotes, hends _ _ hp⟩
      | fault e =>
          exact ⟨t, hnotes, hends _ _ hp⟩
  | blocked b h₁ resume ih =>
      obtain ⟨t, hnotes, hp, hrest⟩ := hr
      exact ⟨t, hnotes, hwaits t hp, fun h₂ => ih h₂ (hrest h₂) (fun _ => hwaits _) fun _ => hends _⟩
  | outOfFuel =>
      trivial

/-- What is told of an evaluation whose value is changed is told of the evaluation. -/
theorem of_map
    {g : α → β} {Q : Tale β} (hr : (r.bind fun a h => .value (g a) h).Tells Q h) :
    r.Tells (fun t o => Q t (o.map (·.map g))) h := by
  induction r generalizing Q h with
  | value a h₁ =>
      exact hr
  | raise s h₁ =>
      exact hr
  | blocked b h₁ resume ih =>
      obtain ⟨t, hnotes, hp, hrest⟩ := hr
      exact ⟨t, hnotes, hp, fun h₂ => ih h₂ (hrest h₂)⟩
  | outOfFuel =>
      trivial

/-- What an evaluation tells is what its runs note. -/
theorem runs
    (hr : r.Tells P h) :
    r.Tells (fun t o => P t o ∧ ∃ ended, r.Runs h t ended ∧ ended.map Prod.fst = o) h := by
  induction r generalizing P h with
  | value a h₁ =>
      obtain ⟨t, hnotes, hp⟩ := hr
      exact ⟨t, hnotes, hp, _, .value hnotes, rfl⟩
  | raise s h₁ =>
      obtain ⟨t, hnotes, hp⟩ := hr
      exact ⟨t, hnotes, hp, _, .raise hnotes, rfl⟩
  | blocked b h₁ resume ih =>
      obtain ⟨t, hnotes, hp, hrest⟩ := hr
      refine ⟨t, hnotes, ⟨hp, none, .waits hnotes, rfl⟩, fun h₂ => (ih h₂ (hrest h₂)).imp ?_⟩
      rintro t' o ⟨hp', ended, hruns, hended⟩
      exact ⟨hp', ended, .resumes hnotes hruns, hended⟩
  | outOfFuel =>
      trivial

/-- The notes of a run have what is told of all of them. -/
theorem of_runs
    {ended : Option (Except Signal α × Heap)} (hr : r.Tells P h) (hruns : r.Runs h t ended) :
    P t (ended.map Prod.fst) := by
  induction hruns generalizing P with
  | value hnotes =>
      obtain ⟨t', hnotes', hp⟩ := hr
      rwa [Heap.notes_inj hnotes hnotes'] at hp
  | raise hnotes =>
      obtain ⟨t', hnotes', hp⟩ := hr
      rwa [Heap.notes_inj hnotes hnotes'] at hp
  | waits hnotes =>
      obtain ⟨t', hnotes', hp, -⟩ := hr
      rwa [Heap.notes_inj hnotes hnotes'] at hp
  | resumes hnotes _ ih =>
      obtain ⟨t', hnotes', -, hrest⟩ := hr
      rw [Heap.notes_inj hnotes hnotes'] at hrest
      exact ih (hrest _)

end Tells

/-- To have waited before is to have waited. -/
theorem Runs.resumed
    {b : Blocker} {h₁ h₂ h : Heap} {resume : Heap → Res α} {t t' : List Note}
    {ended : Except Signal α × Heap} (hnotes : h₁.notes = t.reverse ++ h.notes)
    (hruns : (Res.blocked b h₂ resume).Runs h₂ t' (some ended)) :
    (Res.blocked b h₁ resume).Runs h (t ++ t') (some ended) := by
  cases hruns with
  | @resumes _ _ _ _ _ t₁ t₂ _ hnothing hrest =>
      have hnil : t₁ = [] := by simpa using hnothing
      rw [hnil, List.nil_append]
      exact .resumes hnotes hrest

end Res

/-! ### Parts that are performed -/

/-- To perform a part of the program. -/
def Act.perform (E : Engine) : Act → Eval Flow
  | eval e env => do pure (.value (← E.eval e env))
  | exec s env => E.exec s env
  | block body env => Eval.execBody E body env
  | call callee args typeArgs site => do pure (.value (← E.call callee args typeArgs site))

/-- The part of the program that the code of a call is, in its scope. -/
def LambdaBody.act (env : Env) : LambdaBody Expr Stmt → Act
  | .block body => .block body env
  | .expr e => .eval e env

/-- Notes are those of a run of the engine on a part, from a memory of some kind, by the code of a frame;
and its outcome, if it has ended. -/
def Performs (given : Memory → Prop) (frame : Option ScopeId) (a : Act) (t : List Note)
    (outcome : Option (Except Signal Flow)) : Prop :=
  ∃ fuel c h ended, c.frame = frame ∧ given h.toMemory ∧
    (a.perform ⟨Eval.run fuel, fuel⟩ c h).Runs h t ended ∧ ended.map Prod.fst = outcome

/-! ### Plans -/

/-- What a thread has to note next. -/
inductive Plan : Type 1
  /-- Whatever it notes. -/
  | any
  | notes (ev : Event) (next : Plan)
  /-- A part is performed, from a memory of some kind; the rest depends on its outcome. -/
  | performsIn (given : Memory → Prop) (frame : Option ScopeId) (a : Act)
      (next : Except Signal Flow → Plan)
  | oneOf {ι : Type} (plans : ι → Plan)

namespace Plan

/-- Notes keep to a plan.  While the thread is not over, it may be amid a part. -/
def Met (isOver : Bool) : Plan → List Note → Prop
  | any, _ => True
  | notes ev next, t => ∃ m rest, t = ⟨ev, m⟩ :: rest ∧ Met isOver next rest
  | performsIn given frame a next, t =>
      (∃ t₁ rest o, t = t₁ ++ rest ∧ Performs given frame a t₁ (some o) ∧
        Met isOver (next o) rest) ∨
      isOver = false ∧ Performs given frame a t none
  | oneOf plans, t => ∃ i, Met isOver (plans i) t

/-- What a thread notes when it goes on does not matter to a plan that is met to its end. -/
theorem Met.append
    {p : Plan} {t : List Note} (ht : p.Met true t) (isOver : Bool) (more : List Note) :
    p.Met isOver (t ++ more) := by
  induction p generalizing t with
  | any =>
      trivial
  | notes ev next ih =>
      obtain ⟨m, rest, rfl, hrest⟩ := ht
      exact ⟨m, rest ++ more, rfl, ih hrest⟩
  | performsIn given frame a next ih =>
      obtain ⟨t₁, rest, o, rfl, hperforms, hrest⟩ | ⟨hover, -⟩ := ht
      · exact .inl ⟨t₁, rest ++ more, o, List.append_assoc _ _ _, hperforms, ih o hrest⟩
      · cases hover
  | oneOf plans ih =>
      obtain ⟨i, hi⟩ := ht
      exact ⟨i, ih i hi⟩

theorem Met.performsIn_imp
    {given : Memory → Prop} {frame : Option ScopeId} {a : Act} {isOver : Bool} {t : List Note}
    {next next' : Except Signal Flow → Plan}
    (hnext : ∀ o t, (next o).Met isOver t → (next' o).Met isOver t)
    (ht : (performsIn given frame a next).Met isOver t) :
    (performsIn given frame a next').Met isOver t := by
  obtain ⟨t₁, rest, o, ht₁, hperforms, hrest⟩ | hwaits := ht
  · exact .inl ⟨t₁, rest, o, ht₁, hperforms, hnext o rest hrest⟩
  · exact .inr hwaits

theorem Met.notes_imp
    {ev : Event} {next next' : Plan} {isOver : Bool} {t : List Note}
    (hnext : ∀ t, next.Met isOver t → next'.Met isOver t) (ht : (notes ev next).Met isOver t) :
    (notes ev next').Met isOver t := by
  obtain ⟨m, rest, ht₁, hrest⟩ := ht
  exact ⟨m, rest, ht₁, hnext rest hrest⟩

/-- A part is performed. -/
def performs (frame : Option ScopeId) (a : Act) (next : Except Signal Flow → Plan) : Plan :=
  .performsIn (fun _ => True) frame a next

/-- One plan or another one. -/
def either (p q : Plan) : Plan := .oneOf fun | true => p | false => q

end Plan

/-- A plan whose rest depends on an outcome. -/
abbrev Course (α : Type) := (Except Signal α → Plan) → Plan

/-! ### What the parts of a program plan -/

/-- The outcome of a statement that gives no value. -/
def Flow.discarded : Flow → Flow
  | value _ => value .nil
  | flow => flow

/-- Whether a deferred call has been made when it is evaluated; what has been deferred without arguments
is yet to be called. -/
def Deferred.isMade (d : Deferred) (v : Value) : Bool :=
  match d.call with
  | .call .. => true
  | _ => !v.isCallable

/-- What a clause binds before its body runs. -/
def CatchClause.bound (c : CatchClause Stmt) (v : Value) : Assoc Binding :=
  match c.binding with
  | some n => (∅ : Assoc Binding).insert n ⟨v, .varBinding, none⟩
  | none => ∅

namespace Plan

/-- An outcome counts no more: a fault is lost with it. -/
def superseded {α : Type} (outcome : Except Signal α) (next : Plan) : Plan :=
  match outcome with
  | .error (.fault f) => .notes (.superseded f.cause) next
  | _ => next

/-- A deferred call of a frame is made. -/
def deferral (f : ScopeId) (d : Deferred) : Course Unit := fun next =>
  .performs (some f) (.eval d.call d.env) fun
    | .ok (.value v) =>
      if d.isMade v then next (.ok ())
      else .performs (some f) (.call v [] [] d.span) fun
        | .ok _ => next (.ok ())
        | .error s => next (.error s)
    | .ok _ => .any
    | .error s => next (.error s)

/-- The deferred calls of a frame are made, one after another.  One that does not complete takes the
place of the outcome. -/
def unwind (f : ScopeId) : List Deferred → Except Signal Flow → Course Flow
  | [], outcome => fun next => next outcome
  | d :: earlier, outcome => fun next =>
    .notes (.ran f d) <| deferral f d fun
      | .ok () => .notes .cleaned <| unwind f earlier outcome next
      | .error s => .notes .overruled <| superseded outcome <|
        unwind f earlier (Res.faultsMapped (·.locate d.span) (.error s)) next

/-- The code of a frame runs, and then its deferred calls are made, the last one first. -/
def frame (f : ScopeId) (caller : Option ScopeId) (code : Act) : Course Flow := fun next =>
  .performs (some f) code fun outcome => .notes (.stopped f) <| .oneOf fun defers =>
    .notes (.due f defers) <| unwind f defers.reverse outcome fun outcome =>
      .notes (.left f caller) (next outcome)

/-- A fault arises. -/
def faulted {α : Type} (cause : Cause) : Course α := fun next =>
  .notes (.faulted cause) (next (.error (.fault (.ofCause cause))))

/-- Some fault arises. -/
def fails {α : Type} : Course α := fun next => .oneOf fun cause => faulted cause next

/-- The value of a call after the outcome of its body; it may not be of the declared type. -/
def result (i : Invocation) : Except Signal Flow → Course Value
  | .ok (.value v) | .ok (.ret v) => fun next =>
    either (fails next) (next (.ok (if i.returns.any Eval.isVoid then .nil else v)))
  | .ok .stop => faulted (.outsideLoop "break")
  | .ok .next => faulted (.outsideLoop "continue")
  | .error s => fun next => next (.error s)

/-- The body of a call runs in a frame of its own, unless an argument is not of its declared type. -/
def body (i : Invocation) : Course Value := fun next =>
  either (fails next) <| .oneOf fun caller => .oneOf fun f => .notes (.entered f caller) <|
    frame f caller (i.body.act (f :: i.closure)) fun outcome => result i outcome next

/-- A call is refused, or its body runs; then it is answered. -/
def call (i : Invocation) : Course Value := fun next =>
  let answered (outcome : Except Signal Value) : Plan :=
    .notes (.answered i outcome) (next outcome)
  either (.oneOf fun limit => .notes (.refused limit) (faulted (.callDepth limit) answered))
    (.oneOf fun site => body i fun outcome =>
      answered (Res.faultsMapped (·.leave i.name site) outcome))

/-- The statements of a block are executed one after another, until one does not complete. -/
def block (frame : Option ScopeId) (env : Env) : List Stmt → Value → Course Flow
  | [], last => fun next => next (.ok (.value last))
  | s :: rest, _ => fun next => .performs frame (.exec s env) fun
    | .ok (.value v) => block frame env rest v next
    | outcome => next outcome

/-- The body of a clause runs in a scope of its own, which binds nothing but what the clause takes. -/
def handler (frame : Option ScopeId) (env : Env) (e : Exception) (c : CatchClause Stmt) :
    Course Flow := fun next =>
  .oneOf fun id => .performsIn (fun m => (m.scopes.scope id).vars = c.bound e.value) frame
    (.block c.body (id :: env)) fun outcome => next (outcome.map Flow.discarded)

/-- What the body of a try throws goes to a clause, or passes. -/
def taken (frame : Option ScopeId) (env : Env) : Except Signal Flow → Course Flow
  | .error (.thrown e) => fun next =>
    either (.oneOf fun c => .notes (.caught e c) (handler frame env e c next))
      (.notes (.passed e) (next (.error (.thrown e))))
  | outcome => fun next => .notes .finished (next outcome)

/-- The body of a try runs, and the clause that takes what it throws. -/
def guarded (frame : Option ScopeId) (env : Env) (body : List Stmt)
    (clauses : List (CatchClause Stmt)) : Course Flow := fun next =>
  .notes (.tried clauses) <| .oneOf fun id =>
    .performs frame (.block body (id :: env)) fun outcome =>
      taken frame env (outcome.map Flow.discarded) next

/-- The outcome before a cleanup counts if the cleanup completes, and else that of the cleanup. -/
def resumed (outcome : Except Signal Flow) : Except Signal Flow → Course Flow
  | .ok (.value _) => fun next => .notes .cleaned (next outcome)
  | later => fun next => .notes .overruled <| superseded outcome (next later)

/-- A cleanup runs. -/
def cleanup (frame : Option ScopeId) (env : Env) (body : List Stmt)
    (outcome : Except Signal Flow) : Course Flow := fun next =>
  .oneOf fun id => .performs frame (.block body (id :: env)) fun later =>
    resumed outcome later next

/-- A try runs, and its cleanup. -/
def attempt (frame : Option ScopeId) (env : Env) (body : List Stmt)
    (clauses : List (CatchClause Stmt)) : Option (List Stmt) → Course Flow
  | none => guarded frame env body clauses
  | some last => fun next =>
    .notes .shielded <| guarded frame env body clauses fun outcome =>
      .notes .cleaning <| cleanup frame env last outcome next

/-- A value is thrown when it has been evaluated. -/
def throw (frame : Option ScopeId) (env : Env) (e : Expr) (span : Span) : Course Flow := fun next =>
  .performs frame (.eval e env) fun
    | .ok (.value v) =>
      .notes (.threw ⟨v, some span⟩) (next (.error (.thrown ⟨v, some span⟩)))
    | .ok _ => .any
    | .error s => next (.error s)

/-- A call is deferred. -/
def defer (frame : Option ScopeId) (env : Env) (call : Expr) (span : Span) : Course Flow := fun next =>
  .notes (.deferred frame ⟨call, env, span⟩) (next (.ok (.value .nil)))

/-- The initializers of some fields are evaluated one after another.  A value that a field may not hold
ends it. -/
def fields (frame : Option ScopeId) (env : Env) : List FieldDef → Course Unit
  | [] => fun next => next (.ok ())
  | f :: rest => fun next =>
    let stored : Plan := either (fails next) (fields frame env rest next)
    match f.init with
    | none => stored
    | some e => .performs frame (.eval e env) fun
      | .ok _ => stored
      | .error s => next (.error s)

/-- The fields of several classes get their first values, class by class. -/
def layers (frame : Option ScopeId) : List ClassDef → Course Unit
  | [] => fun next => next (.ok ())
  | c :: rest => fun next => .oneOf fun id =>
    fields frame (id :: c.own.closure) c.own.fields fun
      | .ok () => layers frame rest next
      | .error s => next (.error s)

/-- A method is called on an instance, unless it cannot be. -/
def method (o : Instance) (m : Method) : Course Value := fun next =>
  either (fails next) <| .oneOf fun p : {p : Invocation × List Value //
      p.1.params = m.params ∧ p.1.body = .block (m.body.getD []) ∧ p.1.closure = m.closure ∧
        ∃ c, p.1.receiver = some ⟨o, c⟩} =>
    .notes (.called p.1.1 p.1.2) (call p.1.1 next)

/-- The fields of an instance get their first values, the oldest ancestor's first; if that completes,
the constructor is called. -/
def build (frame : Option ScopeId) (o : Instance) (constructor : Option Method) : Course Unit :=
  fun next => layers frame o.cls.lineage.reverse fun
    | .ok () =>
      match constructor with
      | some m => method o m fun outcome => next (outcome.map fun _ => ())
      | none => next (.ok ())
    | .error s => next (.error s)

end Plan

/-! ### What events plan -/

/-- What a statement plans that defers a call, throws or tries. -/
def Stmt.course (frame : Option ScopeId) (env : Env) : Stmt → Option (Course Flow)
  | .defer call span => some (Plan.defer frame env call span)
  | .throw e span => some (Plan.throw frame env e span)
  | .attempt body clauses cleanup _ => some (Plan.attempt frame env body clauses cleanup)
  | _ => none

/-- What comes after an event of a thread. -/
def Event.plan : Event → Plan
  | .began frame (.exec s env) =>
    (s.course frame env).elim .any fun course => course fun outcome =>
      .notes (.ended (.exec s env) (Res.faultsMapped (·.locate s.span) outcome)) .any
  | .began frame (.block body env) =>
    .block frame env body .nil fun outcome => .notes (.ended (.block body env) outcome) .any
  | .called i _ => .call i fun _ => .any
  | .entered f caller => .oneOf fun code => .frame f caller code fun _ => .any
  | .ran f d => .deferral f d fun
    | .ok () => .notes .cleaned .any
    | .error _ => .notes .overruled .any
  | .caught e c => .oneOf fun frame => .oneOf fun env => .handler frame env e c fun _ => .any
  | .cleaning => .oneOf fun frame => .oneOf fun env => .oneOf fun body => .oneOf fun outcome =>
    .cleanup frame env body outcome fun _ => .any
  | .building o constructor => .oneOf fun frame => .build frame o constructor fun _ => .any
  | _ => .any

/-! ### What may be noted after what -/

/-- The body of a call begins in a scope: the parameters stand for what the arguments were fitted to, and
that is of their types. -/
def Invocation.Begins (i : Invocation) (args : List Value) (f : ScopeId) (m : Memory) : Prop :=
  ∃ fitted, (Overload.accepts i.params args.length → Eval.unfitted m.heap i.params fitted = args) ∧
    (m.scopes.scope f).vars = Assoc.ofList (i.boundLocals ++ Eval.boundParams i.params fitted) ∧
    i.Suits i.params fitted m

/-- A value is of the type that a call returns. -/
def Invocation.Yields (i : Invocation) (v : Value) : Prop :=
  ∀ t, i.returns = some t → if Eval.isVoid t then v = .nil else Obeys v t i.bindings

/-- What must be so for a note to come after an event: only its statement defers a call, the body of a
call begins with arguments of their types, and a call is answered with a value of its own. -/
def Note.Follows (previous : Option Event) (n : Note) : Prop :=
  match n.event with
  | .deferred frame d => previous = some (.began frame (.exec (.defer d.call d.span) d.env))
  | .entered f caller =>
    (previous = none ∧ caller = none) ∨
      ∃ i args, previous = some (.called i args) ∧ i.Begins args f n.memory
  | .answered i (.ok v) => i.Yields v
  | _ => True

/-! ### Notes in order -/

/-- After a previous event, each event is followed by what it plans. -/
def InOrder (isOver : Bool) : Option Event → List Note → Prop
  | _, [] => True
  | previous, n :: t =>
    n.Follows previous ∧ n.event.plan.Met isOver t ∧ InOrder isOver (some n.event) t

/-- The last event of some notes, if there is one. -/
def latest (previous : Option Event) : List Note → Option Event
  | [] => previous
  | n :: t => latest (some n.event) t

/-- There is no last event just where nothing has been noted. -/
theorem latest_eq_none
    {t : List Note} :
    latest none t = none ↔ t = [] := by
  have hsome (ev : Event) (t : List Note) : latest (some ev) t ≠ none := by
    induction t generalizing ev with
    | nil =>
        simp [latest]
    | cons n t ih =>
        exact ih n.event
  cases t with
  | nil =>
      simp [latest]
  | cons n t =>
      exact iff_of_false (hsome n.event t) (List.cons_ne_nil n t)

namespace InOrder

variable {isOver : Bool} {previous : Option Event} {t t' : List Note}

theorem append
    (ht : InOrder true previous t) (ht' : InOrder isOver (latest previous t) t') :
    InOrder isOver previous (t ++ t') := by
  induction t generalizing previous with
  | nil =>
      exact ht'
  | cons n t ih =>
      obtain ⟨hfollows, hplan, hrest⟩ := ht
      exact ⟨hfollows, hplan.append isOver t', ih hrest ht'⟩

/-- What is in order is so at each place. -/
theorem here
    {before after : List Note} {n : Note} (ht : InOrder isOver previous (before ++ n :: after)) :
    n.Follows (latest previous before) ∧ n.event.plan.Met isOver after := by
  induction before generalizing previous with
  | nil =>
      exact ⟨ht.1, ht.2.1⟩
  | cons n' before ih =>
      exact ih ht.2.2

end InOrder

end ScriptEngine
