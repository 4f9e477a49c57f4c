import ScriptEngine.Proofs.Evaluation.Laws
import ScriptEngine.Proofs.Futures.Settlement

/-!
# The interpreter at futures

What the interpreter does at futures are moves of a thread.  To settle a future is to settle it, to
run its continuations and to report that, without a pause (`Settling.Run.settle`); to register a
continuation is to store it or to run it (`Settling.Run.onSettle`).  A continuation that is run is
queued as a job, which calls the callback and settles the target (`Eval.runJob_continuation`).
-/

namespace ScriptEngine

variable {α β : Type}

namespace Res

/-- What is made of a value is made of the outcome. -/
theorem attempt_map
    (r : Res α) (f : α → β) :
    (r.bind fun a h => .value (f a) h).attempt = r.attempt.bind fun a h => .value (a.map f) h := by
  induction r with
  | value | raise | outOfFuel =>
      rfl
  | blocked b h k ih =>
      simp only [bind, attempt, Res.blocked.injEq, true_and]
      exact funext ih

end Res

namespace Eval

/-- A computation settles a future with what it ends with; a raised signal rejects it. -/
theorem settleWith_apply
    (target : Nat) (x : Eval Settlement) (c : Context) (h : Heap) :
    settleWith target x c h =
      (x c h).attempt.bind fun r h =>
        .value () (h.settle target (match r with
          | .ok settlement => settlement
          | .error s => Builtin.rejection s)).2 := by
  rw [settleWith, bind_apply, attempt_apply]
  congr 1
  funext r h
  cases r with
  | ok | error =>
      rfl

/-- A continuation calls its callback if the settlement is its case. -/
theorem continueWith_apply
    (E : Engine) (k : Continuation) (x : Settlement) (c : Context) (h : Heap) :
    Builtin.continueWith E k x c h =
      match k.step.arguments? h.exceptionMessage x with
      | none => .value x h
      | some args => (callback E k.callback args c h).bind fun v h =>
          .value (k.step.conclude x (.ok v)) h := by
  obtain ⟨step, callee, target⟩ := k
  cases step with
  | onFulfilled =>
      cases x with
      | fulfilled v =>
          exact bind_apply ..
      | pending | rejected | cancelled =>
          rfl
  | onRejected =>
      cases x with
      | rejected e =>
          exact (heap_bind_apply _ c h).trans (bind_apply ..)
      | pending | fulfilled | cancelled =>
          rfl
  | always =>
      exact bind_apply ..

end Eval

theorem ChainStep.conclude_error
    (step : ChainStep) (x : Settlement) (s : Signal) :
    step.conclude x (.error s) = Builtin.rejection s := by
  cases step with
  | onFulfilled | onRejected | always =>
      rfl

namespace Eval

/-- Running a continuation is to call its callback, if the settlement is its case, and to settle its
target. -/
theorem runJob_continuation
    (E : Engine) (k : Continuation) (x : Settlement) (c : Context) (h : Heap) :
    runJob E (.continuation k x) c h =
      match k.step.arguments? h.exceptionMessage x with
      | none => .value () (h.settle k.target x).2
      | some args => (callback E k.callback args c h).attempt.bind fun r h =>
          .value () (h.settle k.target (k.step.conclude x r)).2 := by
  rw [runJob, settleWith_apply, continueWith_apply]
  cases k.step.arguments? h.exceptionMessage x with
  | none =>
      rfl
  | some args =>
      show Res.bind (Res.attempt _) _ = _
      rw [Res.attempt_map, Res.bind_assoc]
      congr 1
      funext r h
      cases r with
      | ok v =>
          rfl
      | error s =>
          rw [k.step.conclude_error]
          rfl

end Eval

theorem Heap.future_eq_at
    (h : Heap) (id : Nat) :
    Settling.Futures.at h.futures.toList id = h.future id := by
  simp [Settling.Futures.at, Heap.future, Array.getD_eq_getD_getElem?]

namespace Settling.Run

variable {C : Callbacks} {log : Log} {s : State} {t id : Nat} {h : Heap}

/-- A thread runs the continuations that it has taken along, the first first, and reports success. -/
theorem handAll
    {x : Settlement} {ks : List Continuation} (hrun : Run C log s)
    (ht : s.threads[t]? = some (.handing id x ks)) :
    ∃ s', Run C ((t, .answered id x true) :: ks.reverse.map (fun k => (t, .ran id k x)) ++ log) s' ∧
      s'.futures = s.futures ∧ s'.threads[t]? = some .idle := by
  induction ks generalizing log s with
  | nil =>
      obtain ⟨s', hstep, hfutures, ht'⟩ := Step.exists_of_move ht (.handed (C := C))
      exact ⟨s', hrun.step hstep, hfutures, ht'⟩
  | cons k ks ih =>
      obtain ⟨s₁, hstep, hfutures, ht₁⟩ := Step.exists_of_move ht (.hand (C := C))
      obtain ⟨s', hrun', hfutures', ht'⟩ := ih (hrun.step hstep) ht₁
      exact ⟨s', by simpa using hrun', hfutures'.trans hfutures, ht'⟩

/-- The interpreter settles a future by moves of a thread; the jobs that it queues are the
continuations that the thread runs. -/
theorem settle
    {x : Settlement} (hrun : Run C log s) (hfutures : s.futures = h.futures.toList)
    (hlt : id < h.futures.size) (ht : s.threads[t]? = some (.settling id x)) :
    ∃ (ks : List Continuation) (s' : State), Run C ((t, .answered id x (h.settle id x).1) ::
        ks.reverse.map (fun k => (t, .ran id k x)) ++
          ((if (h.settle id x).1 then [(t, .settled id x)] else []) ++ log)) s' ∧
      s'.futures = (h.settle id x).2.futures.toList ∧ s'.threads[t]? = some .idle ∧
        (h.settle id x).2.jobs = h.jobs ++ ks.map (.continuation · x) := by
  have hat : s.futures.at id = h.future id := by
    rw [hfutures, h.future_eq_at]
  cases hsettle : (h.future id).settle? x with
  | none =>
      obtain ⟨s', hstep, hsame, ht'⟩ :=
        Step.exists_of_move ht (.late (C := C) (hat.symm ▸ hsettle))
      refine ⟨[], s', ?_, ?_, ht', ?_⟩
      · simpa [Heap.settle, hsettle] using hrun.step hstep
      · simpa [Heap.settle, hsettle] using hsame.trans hfutures
      · simp [Heap.settle, hsettle]
  | some r =>
      obtain ⟨f, ks⟩ := r
      have hlt' : id < s.futures.length := by
        simpa [hfutures] using hlt
      obtain ⟨s₁, hstep, hset, ht₁⟩ :=
        Step.exists_of_move ht (.settle (C := C) hlt' (hat.symm ▸ hsettle))
      obtain ⟨s', hrun', hsame, ht'⟩ := (hrun.step hstep).handAll ht₁
      refine ⟨ks, s', ?_, ?_, ht', ?_⟩
      · simpa [Heap.settle, hsettle] using hrun'
      · simp [Heap.settle, hsettle, hsame, hset, hfutures]
      · simp [Heap.settle, hsettle]

/-- The interpreter registers a continuation by moves of a thread, and queues it if the thread runs
it. -/
theorem onSettle
    {k : Continuation} (hrun : Run C log s) (hfutures : s.futures = h.futures.toList)
    (hlt : id < h.futures.size) (ht : s.threads[t]? = some (.chaining id k)) :
    ∃ (xs : List Settlement) (s' : State), Run C (xs.map (fun x => (t, .ran id k x)) ++ (t, .registered id k) :: log) s' ∧
      s'.futures = (h.onSettle id k).futures.toList ∧ s'.threads[t]? = some .idle ∧
        (h.onSettle id k).jobs = h.jobs ++ xs.map (.continuation k) := by
  have hat : s.futures.at id = h.future id := by
    rw [hfutures, h.future_eq_at]
  cases hregister : (h.future id).onSettle k with
  | mk f late =>
      cases late with
      | none =>
          have hlt' : id < s.futures.length := by
            simpa [hfutures] using hlt
          obtain ⟨s', hstep, hset, ht'⟩ :=
            Step.exists_of_move ht (.register (C := C) hlt' (hat.symm ▸ hregister))
          refine ⟨[], s', hrun.step hstep, ?_, ht', ?_⟩
          · simp [Heap.onSettle, hregister, hset, hfutures]
          · simp [Heap.onSettle, hregister]
      | some x =>
          obtain ⟨s₁, hstep, hsame, ht₁⟩ :=
            Step.exists_of_move ht (.registerLate (C := C) (hat.symm ▸ hregister))
          obtain ⟨s', hstep', hsame', ht'⟩ := Step.exists_of_move ht₁ (.run (C := C))
          refine ⟨[x], s', (hrun.step hstep).step hstep', ?_, ht', ?_⟩
          · simp [Heap.onSettle, hregister, hsame', hsame, hfutures]
          · simp [Heap.onSettle, hregister]

end Settling.Run
end ScriptEngine
