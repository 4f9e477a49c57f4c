import ScriptEngine.Proofs.Evaluation.Laws

/-!
# What computations are composed of

Threads take turns, so what a thread does falls into stretches between the moments at which it
waits.  A `Protocol` says what a stretch may do to the heap, and what the thread may count on when
it goes on.  What the thread *holds* changes from stretch to stretch: the frames it has open, the
faults it still owes.

**Stretches.** `moves k h k' h'` relates what is held and the heap at the two ends of a stretch.

**Interference.** Between two stretches other threads change the heap, but only `along` the
protocol, and so that `inv` still holds of what the thread holds.

**Evaluations.** `Follows P Q r k h` says that an evaluation keeps the protocol from a heap on and
that `Q` holds of its outcome and of what is held in the end.  It is defined by recursion on the
evaluation, so each operation of `Eval` has a rule that is proved by induction on it.

Every computation of a program is put together from a few operations.  `Composed` lists them, and
says in which place each may stand:

1. an *expression* may stand anywhere;
2. a *statement* belongs to the frame whose code runs; the scopes it may work in are the ones it was
   given and those of the blocks it opens, so it is known of each that the frame is around it;
3. what a *call* consists of opens the scope of its frame;
4. in the scope of a *frame* expressions are run, and then the body.

A property of computations that each operation preserves holds of every program.  Changes of the
heap that concern neither frames nor notes nor threads are `Calm`, and count as one operation.  The
statements that defer a call or guard a body are not among the operations: what they note depends on
the statement.
-/

namespace ScriptEngine

/-! ### Protocols of threads -/

/-- What threads that hold something may do and may count on. -/
structure Protocol (κ : Type) where
  /-- What holds of the heap whenever a thread goes on. -/
  inv : κ → Heap → Prop
  /-- How the heap changes in the course of time, whoever changes it. -/
  along : Heap → Heap → Prop
  /-- How a thread changes the heap in one stretch. -/
  moves : κ → Heap → κ → Heap → Prop
  along_refl : ∀ h, along h h
  along_trans : ∀ {h₁ h₂ h₃}, along h₁ h₂ → along h₂ h₃ → along h₁ h₃
  moves_refl : ∀ {k h}, inv k h → moves k h k h
  moves_trans : ∀ {k₁ h₁ k₂ h₂ k₃ h₃},
    moves k₁ h₁ k₂ h₂ → moves k₂ h₂ k₃ h₃ → moves k₁ h₁ k₃ h₃
  moves_along : ∀ {k h k' h'}, moves k h k' h' → along h h'
  moves_inv : ∀ {k h k' h'}, moves k h k' h' → inv k' h'

namespace Protocol

variable {κ : Type} {P : Protocol κ}
variable {α β : Type}

/-- The outcome of an evaluation is the signal it raises or its value. -/
abbrev Goal (κ α : Type) := Except Signal α → κ → Prop

/-- An evaluation keeps a protocol, and `Q` holds when it ends. -/
def Follows
    (P : Protocol κ) (Q : Goal κ α) :
    Res α → κ → Heap → Prop
  | .value a h', k, h => ∃ k', P.moves k h k' h' ∧ Q (.ok a) k'
  | .raise s h', k, h => ∃ k', P.moves k h k' h' ∧ Q (.error s) k'
  | .blocked _ h' resume, k, h =>
      ∃ k', P.moves k h k' h' ∧
        ∀ h'', P.along h' h'' → P.inv k' h'' → Follows P Q (resume h'') k' h''
  | .outOfFuel, _, _ => True

section Follows

variable {Q Q' : Goal κ α} {r : Res α} {k k' : κ} {h h' : Heap}

/-- A stretch may come before an evaluation. -/
theorem Follows.after
    (hm : P.moves k h k' h')
    (hr : P.Follows Q r k' h') :
    P.Follows Q r k h := by
  cases r with
  | value a h₁ =>
      obtain ⟨k₁, hm₁, hq⟩ := hr
      exact ⟨k₁, P.moves_trans hm hm₁, hq⟩
  | raise s h₁ =>
      obtain ⟨k₁, hm₁, hq⟩ := hr
      exact ⟨k₁, P.moves_trans hm hm₁, hq⟩
  | blocked b h₁ resume =>
      obtain ⟨k₁, hm₁, hrest⟩ := hr
      exact ⟨k₁, P.moves_trans hm hm₁, hrest⟩
  | outOfFuel =>
      trivial

/-- As far as an evaluation has come, the heap has changed along the protocol. -/
theorem Follows.along
    (hr : P.Follows Q r k h) (hh : r.heap? = some h') :
    P.along h h' := by
  cases r with
  | value a h₁ =>
      cases hh
      obtain ⟨k₁, hm, -⟩ := hr
      exact P.moves_along hm
  | raise s h₁ =>
      cases hh
      obtain ⟨k₁, hm, -⟩ := hr
      exact P.moves_along hm
  | blocked b h₁ resume =>
      cases hh
      obtain ⟨k₁, hm, -⟩ := hr
      exact P.moves_along hm
  | outOfFuel =>
      cases hh

/-- The continuation of an evaluation starts along the protocol, with the invariant in force. -/
theorem Follows.bind
    {R : Goal κ β} {f : α → Heap → Res β}
    (hr : P.Follows Q r k h)
    (hf : ∀ a k' h', P.along h h' → P.inv k' h' → Q (.ok a) k' →
      P.Follows R (f a h') k' h')
    (he : ∀ s k', Q (.error s) k' → R (.error s) k') :
    P.Follows R (r.bind f) k h := by
  induction r generalizing k h with
  | value a h₁ =>
      obtain ⟨k₁, hm, hq⟩ := hr
      have hnext := hf a k₁ h₁ (P.moves_along hm) (P.moves_inv hm) hq
      exact hnext.after hm
  | raise s h₁ =>
      obtain ⟨k₁, hm, hq⟩ := hr
      exact ⟨k₁, hm, he s k₁ hq⟩
  | blocked b h₁ resume ih =>
      obtain ⟨k₁, hm, hrest⟩ := hr
      refine ⟨k₁, hm, fun h₂ halong hinv => ?_⟩
      refine ih h₂ (hrest h₂ halong hinv) fun a k₃ h₃ h₂₃ => ?_
      exact hf a k₃ h₃ (P.along_trans (P.along_trans (P.moves_along hm) halong) h₂₃)
  | outOfFuel =>
      trivial

/-- What holds in the end may be weakened. -/
theorem Follows.weaken
    (hr : P.Follows Q r k h)
    (hq : ∀ o k', Q o k' → Q' o k') :
    P.Follows Q' r k h := by
  induction r generalizing k h with
  | value a h₁ =>
      obtain ⟨k₁, hm, ha⟩ := hr
      exact ⟨k₁, hm, hq _ _ ha⟩
  | raise s h₁ =>
      obtain ⟨k₁, hm, hs⟩ := hr
      exact ⟨k₁, hm, hq _ _ hs⟩
  | blocked b h₁ resume ih =>
      obtain ⟨k₁, hm, hrest⟩ := hr
      exact ⟨k₁, hm, fun h₂ halong hinv => ih h₂ (hrest h₂ halong hinv)⟩
  | outOfFuel =>
      trivial

/-- One more stretch at the end, where nothing but what is held changes. -/
theorem Follows.release
    (hr : P.Follows Q r k h)
    (hq : ∀ o k' h', P.inv k' h' → Q o k' → ∃ k'', P.moves k' h' k'' h' ∧ Q' o k'') :
    P.Follows Q' r k h := by
  induction r generalizing k h with
  | value a h₁ =>
      obtain ⟨k₁, hm, ha⟩ := hr
      obtain ⟨k₂, hm₂, ha₂⟩ := hq _ _ _ (P.moves_inv hm) ha
      exact ⟨k₂, P.moves_trans hm hm₂, ha₂⟩
  | raise s h₁ =>
      obtain ⟨k₁, hm, hs⟩ := hr
      obtain ⟨k₂, hm₂, hs₂⟩ := hq _ _ _ (P.moves_inv hm) hs
      exact ⟨k₂, P.moves_trans hm hm₂, hs₂⟩
  | blocked b h₁ resume ih =>
      obtain ⟨k₁, hm, hrest⟩ := hr
      exact ⟨k₁, hm, fun h₂ halong hinv => ih h₂ (hrest h₂ halong hinv)⟩
  | outOfFuel =>
      trivial

/-- To take a signal as a value is to look at the outcome. -/
theorem Follows.attempt
    (hr : P.Follows Q r k h) :
    P.Follows (fun o k' => ∃ outcome, o = .ok outcome ∧ Q outcome k') r.attempt k h := by
  induction r generalizing k h with
  | value a h₁ =>
      obtain ⟨k₁, hm, ha⟩ := hr
      exact ⟨k₁, hm, .ok a, rfl, ha⟩
  | raise s h₁ =>
      obtain ⟨k₁, hm, hs⟩ := hr
      exact ⟨k₁, hm, .error s, rfl, hs⟩
  | blocked b h₁ resume ih =>
      obtain ⟨k₁, hm, hrest⟩ := hr
      exact ⟨k₁, hm, fun h₂ halong hinv => ih h₂ (hrest h₂ halong hinv)⟩
  | outOfFuel =>
      trivial

/-- A change of faults is harmless where it does not matter to what holds in the end. -/
theorem Follows.mapFault
    {f : Fault → Fault}
    (hr : P.Follows Q r k h)
    (hq : ∀ e k', Q (.error (.fault e)) k' → Q (.error (.fault (f e))) k') :
    P.Follows Q (r.mapFault f) k h := by
  induction r generalizing k h with
  | value a h₁ =>
      exact hr
  | raise s h₁ =>
      obtain ⟨k₁, hm, hs⟩ := hr
      cases s with
      | thrown e =>
          exact ⟨k₁, hm, hs⟩
      | fault e =>
          exact ⟨k₁, hm, hq e k₁ hs⟩
  | blocked b h₁ resume ih =>
      obtain ⟨k₁, hm, hrest⟩ := hr
      exact ⟨k₁, hm, fun h₂ halong hinv => ih h₂ (hrest h₂ halong hinv)⟩
  | outOfFuel =>
      trivial

end Follows

end Protocol

/-! ### Operations -/

/-- Between two heaps nothing was noted, no frame has changed and no thread was spawned. -/
structure Calm (h h' : Heap) : Prop where
  past : h'.past = h.past
  width : h.scopes.items.size ≤ h'.scopes.items.size
  frames : ∀ id, (h'.scopes.scope id).frame = (h.scopes.scope id).frame
  jobs : ∃ js, h'.jobs = h.jobs ++ js ∧
    (∀ id body env, .thread id body env ∉ js) ∧ (h'.futures.size = 0 → js = [])
  threads : h.threads.size ≤ h'.threads.size
  futures : h.futures.size ≤ h'.futures.size

namespace Calm

variable {h h' : Heap}

/-- Nothing is noted. -/
theorem notes
    (hcalm : Calm h h') :
    h'.notes = h.notes := by
  rw [Heap.notes, Heap.notes, hcalm.past]

theorem history
    (hcalm : Calm h h') :
    h'.history = h.history := by
  rw [Heap.history, Heap.history, hcalm.notes]

/-- A change of anything but what is noted, the scopes, the jobs, the threads and the futures. -/
@[grind ←]
theorem of_eq
    (past : h'.past = h.past)
    (scopes : h'.scopes = h.scopes)
    (jobs : h'.jobs = h.jobs)
    (threads : h'.threads = h.threads)
    (futures : h'.futures = h.futures) :
    Calm h h' := by
  refine ⟨past, ?_, ?_, ⟨[], ?_, ?_, fun _ => rfl⟩, ?_, ?_⟩
  · exact Nat.le_of_eq (by rw [scopes])
  · intro id
    rw [scopes]
  · rw [jobs, List.append_nil]
  · simp
  · exact Nat.le_of_eq (by rw [threads])
  · exact Nat.le_of_eq (by rw [futures])

theorem refl (h : Heap) : Calm h h := by
  exact of_eq rfl rfl rfl rfl rfl

theorem endConstruction
    (o : Instance) (h : Heap) :
    Calm h (h.endConstruction o) := by
  exact of_eq rfl rfl rfl rfl rfl

/-- A change of scopes that leaves their frames as they are. -/
@[grind ←]
theorem of_scopes
    {s : Scopes}
    (width : h.scopes.items.size ≤ s.items.size)
    (frames : ∀ id, (s.scope id).frame = (h.scopes.scope id).frame) :
    Calm h { h with scopes := s } := by
  refine ⟨rfl, width, frames, ⟨[], ?_, ?_, fun _ => rfl⟩, ?_, ?_⟩
  · simp
  · simp
  · exact Nat.le_refl _
  · exact Nat.le_refl _

end Calm

/-- The place of a computation in a program. -/
inductive Role
  | expression
  | statement (envs : List Env)
  | call
  | frame (env : Env)

/-- A computation whose parts may stand where they stand. -/
inductive Composed (E : Engine) : Role → {α : Type} → Eval α → Prop
  | pure {r : Role} {α : Type} (a : α) :
      Composed E r (Pure.pure a : Eval α)
  | bind {r : Role} {α β : Type} {x : Eval α} {f : α → Eval β} :
      Composed E r x → (∀ a, Composed E r (f a)) → Composed E r (x >>= f)
  | plain {r : Role} {α : Type} {x : Eval α} :
      Composed E .expression x → Composed E r x
  | thrown {α : Type} (e : Exception) :
      Composed E .expression (Eval.throwValue e : Eval α)
  | fault {α : Type} (c : Cause) :
      Composed E .expression (Eval.fault c : Eval α)
  | giveUp {α : Type} :
      Composed E .expression (Eval.giveUp : Eval α)
  | change {α : Type} {f : Heap → α × Heap} :
      (∀ h, Calm h (f h).2) → Composed E .expression (Eval.change f)
  | await {α : Type} {b : Blocker} {step : Heap → Option (α × Heap)} :
      (∀ h a h', step h = some (a, h') → Calm h h') →
      Composed E .expression (Eval.await b step)
  | yield :
      Composed E .expression Eval.yield
  | join (id : Nat) :
      Composed E .expression (Builtin.awaitThread id)
  | spawn (body : List Stmt) (env : Env) :
      Composed E .expression (Builtin.startThread body env)
  | called {i : Invocation} {args : List Value} {site : Span} :
      Composed E .call (Eval.runFrame E i args) →
      Composed E .expression (Eval.invoke E i args site)
  | built {o : Instance} {constructor : Option Method} {args : List Value} {site : Span} :
      Composed E .expression (Eval.build E o constructor args site) →
      Composed E .expression (Eval.construct E o constructor args site)
  | mapFault {r : Role} {α : Type} {f : Fault → Fault} {x : Eval α} :
      (∀ e, (f e).cause = e.cause) → Composed E r x → Composed E r (Eval.mapFault f x)
  | diverting {r : Role} {α : Type} {x : Eval α} {handler : Exception → Eval α} :
      Composed E r x → (∀ e, Composed E r (handler e)) →
      Composed E r (Eval.diverting x handler)
  | afterwards {α : Type} {x : Eval α} {f : Heap → Heap} :
      Composed E .expression x → (∀ h, Calm h (f h)) →
      Composed E .expression (Eval.afterwards x f)
  | block {envs : List Env} {env : Env} {α : Type} {f : Env → Eval α} :
      env ∈ envs → (∀ scope, Composed E (.statement (scope :: envs)) (f scope)) →
      Composed E (.statement envs) (Eval.openBlock env >>= f)
  | body {envs : List Env} {env : Env} {ss : List Stmt} :
      Composed E (.statement envs) (Eval.execList E env .nil ss) →
      Composed E (.statement envs) (Eval.execBody E ss env)
  | openFrame {env : Env} {name : String} {receiver : Option Receiver} {α : Type}
      {f : Env → Eval α} :
      (∀ scope, Composed E (.frame scope) (f scope)) →
      Composed E .call (Eval.openFrame env name receiver >>= f)
  | openFields {env : Env} {name : String} {receiver : Option Receiver} {α : Type}
      {f : Env → Eval α} :
      (∀ scope, Composed E .expression (f scope)) →
      Composed E .expression (Eval.openFrame env name receiver >>= f)
  | leave {env : Env} {code : LambdaBody Expr Stmt} :
      Composed E (.statement [env]) (Eval.runCode E code env) →
      (∀ d, Composed E .expression (Eval.makeDeferredCall E d)) →
      Composed E (.frame env) (Eval.leaveFrame E env code)
  | exec {envs : List Env} {env : Env} (s : Stmt) :
      env ∈ envs → Composed E (.statement envs) (E.run (.exec s env))
  | eval (e : Expr) (env : Env) :
      Composed E .expression (E.run (.eval e env))
  | call (callee : Value) (args : List Value) (typeArgs : List TypeExpr) (site : Span) :
      Composed E .expression (E.run (.call callee args typeArgs site))
  | text (v : Value) :
      Composed E .expression (E.run (.text v))

attribute [grind ←] Composed.pure Composed.bind

namespace Composed

variable {E : Engine} {r : Role} {α β σ : Type}

/-! ### Operations in any place -/

@[grind ←]
theorem heap : Composed E r Eval.heap := by
  exact .plain (.change (f := fun h => (h, h)) Calm.refl)

@[grind ←]
theorem modify
    {f : Heap → Heap}
    (hf : ∀ h, Calm h (f h)) :
    Composed E r (Eval.modify f) := by
  exact .plain (.change (f := fun h => ((), f h)) hf)

@[grind ←]
theorem change'
    {f : Heap → α × Heap}
    (hf : ∀ h, Calm h (f h).2) :
    Composed E r (Eval.change f) := by
  exact .plain (.change hf)

@[grind ←]
theorem throwValue
    (e : Exception) :
    Composed E r (Eval.throwValue e : Eval α) := by
  exact .plain (.thrown e)

@[grind ←]
theorem raiseFault
    (c : Cause) :
    Composed E r (Eval.fault c : Eval α) := by
  exact .plain (.fault c)

@[grind ←]
theorem unlessFault
    (c : Option Cause) :
    Composed E r (Eval.unlessFault c) := by
  unfold Eval.unlessFault
  grind

@[grind ←]
theorem ofExcept
    (x : Except Cause α) :
    Composed E r (Eval.ofExcept x) := by
  unfold Eval.ofExcept
  grind

@[grind ←]
theorem evalTask
    (e : Expr) (env : Env) :
    Composed E r (E.eval e env) := by
  exact .plain (.eval e env)

@[grind ←]
theorem callTask
    (callee : Value) (args : List Value) (typeArgs : List TypeExpr) (site : Span) :
    Composed E r (E.call callee args typeArgs site) := by
  exact .plain (.call callee args typeArgs site)

@[grind ←]
theorem textTask
    (v : Value) :
    Composed E r (E.text v) := by
  exact .plain (.text v)

@[grind ←]
theorem execTask
    {envs : List Env} {env : Env} (s : Stmt)
    (henv : env ∈ envs) :
    Composed E (.statement envs) (E.exec s env) := by
  exact .exec s henv

/-! ### Lists and loops -/

@[grind ←]
theorem map
    {x : Eval α} (f : α → β)
    (hx : Composed E r x) :
    Composed E r (f <$> x) := by
  rw [map_eq_pure_bind]
  grind

@[grind ←]
theorem mapM
    {f : α → Eval β} {xs : List α}
    (hf : ∀ a, Composed E r (f a)) :
    Composed E r (xs.mapM f) := by
  induction xs with
  | nil =>
      exact .pure _
  | cons a xs ih =>
      rw [List.mapM_cons]
      grind

@[grind ←]
theorem forM
    {f : α → Eval PUnit} {xs : List α}
    (hf : ∀ a, Composed E r (f a)) :
    Composed E r (xs.forM f) := by
  induction xs with
  | nil =>
      exact .pure _
  | cons a xs ih =>
      unfold List.forM
      grind

@[grind ←]
theorem foldlM
    {f : β → α → Eval β} {b : β} {xs : List α}
    (hf : ∀ b a, Composed E r (f b a)) :
    Composed E r (xs.foldlM f b) := by
  induction xs generalizing b with
  | nil =>
      exact .pure _
  | cons a xs ih =>
      rw [List.foldlM_cons]
      grind

@[grind ←]
theorem filterMapM
    {f : α → Eval (Option β)} {xs : List α}
    (hf : ∀ a, Composed E r (f a)) :
    Composed E r (xs.filterMapM f) := by
  unfold List.filterMapM
  suffices h : ∀ acc, Composed E r (List.filterMapM.loop f xs acc) from h []
  induction xs with
  | nil =>
      intro acc
      exact .pure _
  | cons a xs ih =>
      intro acc
      unfold List.filterMapM.loop
      grind

@[grind ←]
theorem findM?
    {p : α → Eval Bool} {xs : List α}
    (hp : ∀ a, Composed E r (p a)) :
    Composed E r (xs.findM? p) := by
  induction xs with
  | nil =>
      exact .pure _
  | cons a xs ih =>
      unfold List.findM?
      grind

theorem iterateFrom
    {body : σ → Eval (σ ⊕ α)} {fuel round : Nat} {s : σ}
    (hbody : ∀ s, Composed E r (body s)) :
    Composed E r (Eval.iterateFrom body fuel round s) := by
  induction fuel generalizing round s with
  | zero =>
      exact .plain .giveUp
  | succ fuel ih =>
      have hyield : Composed E r Eval.yield := .plain .yield
      unfold Eval.iterateFrom
      grind

/-- A loop is composed of its rounds. -/
@[grind ←]
theorem iterate
    {body : σ → Eval (σ ⊕ α)} {fuel : Nat} {s : σ}
    (hbody : ∀ s, Composed E r (body s)) :
    Composed E r (Eval.iterate fuel body s) := by
  exact iterateFrom hbody

end Composed

end ScriptEngine
