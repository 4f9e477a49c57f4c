import ScriptEngine.Proofs.Conduct.Evaluation
import ScriptEngine.Proofs.Evaluation.Threads
import ScriptEngine.Session

/-!
# Threads in order

The work of a thread is put together from what the engine runs.  So **whatever a thread notes is in
order, from its beginning on**: the main thread of a program and the thread of every job, wherever the
heap comes from.

`Session.KeepsOrder` says so of a program.  With it the laws of what is noted are laws of what is done:
a call that is noted to be deferred is that of a statement, one that is noted to be made is evaluated,
a clause that is noted to take a value runs its body, and a call that is not refused runs its own.
-/

namespace ScriptEngine

variable {previous : Option Event} {t : List Note} {h : Heap} {limit : Nat}

/-- What is composed of tasks of the engine is in order. -/
theorem planned_of_composed
    {r : Role} {α : Type} {x : Eval α} (hx : Composed Eval.engine r x) (hr : r.IsCode) :
    Planned x := by
  exact planned_composed (planned_run Eval.fullFuel) hx hr

/-- The runs of what is in order note what is in order. -/
theorem Res.Orderly.inOrder
    {α : Type} {r : Res α} {ended : Option (Except Signal α × Heap)} (hr : r.Orderly previous h)
    (hruns : r.Runs h t ended) :
    InOrder ended.isSome previous t := by
  have horder := hr.of_runs hruns
  rwa [Option.isSome_map] at horder

/-- The frame of a thread is in order. -/
theorem leaveFrame_orderly
    (env : Env) (code : LambdaBody Expr Stmt) (limit : Nat) (h : Heap) :
    (Eval.leaveFrame Eval.engine env code (.ofLimit limit) h).Orderly none h := by
  exact Res.Orderly.of_takes (leaveFrame_takes (planned_run Eval.fullFuel) env code (.inl ⟨rfl, rfl⟩))

/-- The work of a program is in order from its beginning on. -/
theorem Session.runIn_orderly
    (env : Env) (body : List Stmt) (limit : Nat) (h : Heap) :
    (Session.runIn env body (.ofLimit limit) h).Orderly none h := by
  have hresult (flow : Flow) : Planned (Eval.resultOf flow) := by
    cases flow with
    | value v =>
        exact .pure v
    | ret v =>
        exact .pure v
    | stop =>
        exact .fault _
    | next =>
        exact .fault _
  exact (leaveFrame_orderly env (.block body) limit h).bind hresult

/-- So is the work of every other thread. -/
theorem Eval.runJob_orderly
    (j : Job) (limit : Nat) (h : Heap) :
    (Eval.runJob Eval.engine j (.ofLimit limit) h).Orderly none h := by
  have hsettle {x : Eval Settlement} (target : Nat) (hx : Composed Eval.engine .expression x) :
      Planned (Eval.settleWith target x) := by
    have hsettled (settlement : Settlement) : Planned (do
        let _ ← Builtin.settleFuture target settlement) :=
      planned_of_composed (r := .expression) (.bind (.settleFuture target _) fun _ => .pure _) trivial
    refine (Planned.attempt (planned_of_composed hx trivial)).bind fun outcome => ?_
    cases outcome with
    | ok settlement =>
        exact hsettled settlement
    | error s =>
        exact hsettled (Builtin.rejection s)
  cases j with
  | thread id body env =>
      have hframe := leaveFrame_orderly env (.block body) limit h
      exact hframe.attempt.bind fun outcome => .modify fun _ => rfl
  | async body target =>
      exact hsettle target (.bind (.callback body []) fun v => .pure _) _ _ _
  | continuation k settled =>
      exact hsettle k.target (.continueWith k settled) _ _ _

namespace Session

/-- A program before its first turn. -/
def begin (s : Session) (p : Program) : Res Value :=
  runIn s.env p.statements (.ofLimit s.limit) s.heap

/-- What a thread of a program notes: the main thread, or the thread of a job. -/
inductive Notes (s : Session) (p : Program) : List Note → Prop
  | program {t : List Note} {ended : Option (Except Signal Value × Heap)} :
      (s.begin p).Runs s.heap t ended → Notes s p t
  | thread {j : Job} {h : Heap} {t : List Note} {ended : Option (Except Signal Unit × Heap)} :
      (Eval.runJob Eval.engine j (.ofLimit s.limit) h).Runs h t ended → Notes s p t

/-- In the runs of a program each event is followed by what it plans. -/
structure KeepsOrder (s : Session) (p : Program) : Prop where
  /-- What the main thread notes is in order. -/
  program : ∀ t ended, (s.begin p).Runs s.heap t ended → InOrder ended.isSome none t
  /-- So is what every other thread notes. -/
  threads : ∀ j h t ended, (Eval.runJob Eval.engine j (.ofLimit s.limit) h).Runs h t ended →
    InOrder ended.isSome none t

/-- **Every program keeps order.** -/
theorem keepsOrder
    (s : Session) (p : Program) :
    s.KeepsOrder p where
  program _ _ hruns := (runIn_orderly s.env p.statements s.limit s.heap).inOrder hruns
  threads j h _ _ hruns := (Eval.runJob_orderly j s.limit h).inOrder hruns

/-- What is noted follows what has been noted before. -/
theorem Notes.follows
    {s : Session} {p : Program} {t before after : List Note} {n : Note} (ht : s.Notes p t)
    (hn : t = before ++ n :: after) :
    n.Follows (latest none before) := by
  subst hn
  cases ht with
  | program hruns =>
      exact ((s.keepsOrder p).program _ _ hruns).here.1
  | thread hruns =>
      exact ((s.keepsOrder p).threads _ _ _ _ hruns).here.1

end Session
end ScriptEngine
