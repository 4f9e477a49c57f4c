import ScriptEngine.Proofs.Evaluation.Threads
import ScriptEngine.Proofs.Faults.Ledger

/-!
# Faults in sessions

A program that makes neither threads nor futures is run by the main thread alone.  Whatever faults
it raises are then accounted for when it ends: each of them is the one that the program ends with,
or it has been lost.

**What loses a fault.** No handler takes a fault.  It is lost where a `finally` block that does not
complete, or a deferred call that raises, puts its own outcome in the place of the fault that was
pending; then the program may end with a value although a fault was raised.

The balance of `Balanced` holds only for a thread that is alone.  So the threads of a run share the
account of faults in that there is no other thread, or nothing is accounted for.
-/

namespace ScriptEngine

/-! ### Threads -/

namespace Owes

variable {past : List Event} {cs : List Cause} {h h' : Heap}

/-- Who is not alone owes nothing that is accounted for. -/
theorem of_not_solo
    (hnot : ¬h.Solo) :
    Owes past cs h := by
  exact fun hsolo => absurd hsolo hnot

/-- What is owed is owed in a heap with the same history. -/
theorem of_history
    (ho : Owes past cs h) (hle : h.NoFewer h') (hhistory : h'.history = h.history) :
    Owes past cs h' := by
  intro hsolo
  rw [hhistory]
  exact ho (hle.solo hsolo)

end Owes

/-- A future is settled with whatever the work for it has come to. -/
theorem settleWith_follows
    {past : List Event} {h : Heap} (target : Nat) {x : Eval Settlement} (c : Context)
    (hx : Balanced x) (hnot : ¬h.Solo) :
    (ledger past).Follows (fun _ _ => True) (Eval.settleWith target x c h) [] h := by
  unfold Eval.settleWith
  rw [Eval.bind_apply, Eval.attempt_apply]
  refine (hx past c [] h (.of_not_solo hnot)).attempt.bind (fun outcome cs h' _ ho _ => ?_)
    fun s cs _ => trivial
  have hsettle (s : Settlement) : Balanced (Builtin.settleFuture target s) :=
    balanced_composed (r := .expression) (.settleFuture target s)
  have hend (s : Settlement) :
      Balanced (do let s ← Pure.pure s; let _ ← Builtin.settleFuture target s) :=
    .bind (.pure s) fun s => .bind (hsettle s) fun _ => .pure ()
  split
  · exact (hend _ past c cs h' ho).weaken fun o cs' _ => trivial
  · exact (hend _ past c cs h' ho).weaken fun o cs' _ => trivial

/-- A job only adds threads and futures. -/
theorem runJob_follows
    {past : List Event} {h : Heap} (limit : Nat) (j : Job)
    (hnot : ¬h.Solo) :
    (ledger past).Follows (fun _ _ => True)
      (Eval.runJob Eval.engine j (.ofLimit limit) h) [] h := by
  cases j with
  | thread id body env =>
      have hbody : Balanced (Eval.leaveFrame Eval.engine env (.block body)) :=
        balanced_composed (.leaveFrame _ _)
      rw [Eval.runJob, Eval.bind_apply, Eval.attempt_apply]
      refine (hbody past _ [] h (.of_not_solo hnot)).attempt.bind (fun outcome cs h' hle _ _ => ?_)
        fun s cs _ => trivial
      have hnot' : ¬h'.Solo := fun hsolo => hnot (hle.solo hsolo)
      refine ⟨cs, .of_not_solo ⟨?_, Nat.le_refl _⟩ ?_, trivial⟩
      · simp
      · simpa [Heap.Solo] using hnot'
  | async body target =>
      have hbody : Balanced (Eval.callback Eval.engine body []) :=
        balanced_composed (r := .expression) (.callback body [])
      exact settleWith_follows target _ (.bind hbody fun v => .pure _) hnot
  | continuation c settled =>
      have hwork : Balanced (Builtin.continueWith Eval.engine c settled) :=
        balanced_composed (r := .expression) (.continueWith c settled)
      exact settleWith_follows c.target _ hwork hnot

/-- As long as there are neither threads nor futures, nobody goes on but the main thread, which owes
what is to be accounted for. -/
structure Attended (past : List Event) (owed : List (List Cause)) (js : List Job) (h : Heap) :
    Prop where
  one : h.Solo → owed.length ≤ 1
  owes : ∀ cs ∈ owed, Owes past cs h
  jobs : h.Solo → js ++ h.jobs = []

namespace Attended

variable {past : List Event} {owed : List (List Cause)} {cs cs' : List Cause} {js : List Job}
variable {h h' : Heap}

/-- A job that is to begin means that the main thread is not alone. -/
theorem not_solo
    {j : Job}
    (ha : Attended past owed (j :: js) h) :
    ¬h.Solo := by
  intro hsolo
  cases ha.jobs hsolo

/-- One of the threads makes a stretch. -/
theorem stretch
    (ha : Attended past (cs :: owed) js h) (he : Entry past cs h cs' h') :
    Attended past (cs' :: owed) js h' := by
  refine ⟨fun hsolo => ha.one (he.noFewer.solo hsolo), fun cs₀ hcs => ?_, fun hsolo => ?_⟩
  · rcases List.mem_cons.mp hcs with rfl | hcs
    · exact he.owes
    · -- beside the thread that goes on there is another one
      intro hsolo
      have hone := ha.one (he.noFewer.solo hsolo)
      cases owed with
      | nil =>
          cases hcs
      | cons =>
          simp at hone
  · rw [he.jobs hsolo]
    exact ha.jobs (he.noFewer.solo hsolo)

/-- A change of the heap that is no matter of faults, threads and futures. -/
theorem quiet
    (ha : Attended past owed js h)
    (hle : h.NoFewer h') (hhistory : h'.history = h.history) {js' : List Job}
    (hjobs : js' ++ h'.jobs = js ++ h.jobs) :
    Attended past owed js' h' := by
  refine ⟨fun hsolo => ha.one (hle.solo hsolo), fun cs hcs => ?_, fun hsolo => ?_⟩
  · exact (ha.owes cs hcs).of_history hle hhistory
  · rw [hjobs]
    exact ha.jobs (hle.solo hsolo)

end Attended

/-- How threads share the account of faults. -/
def sharedLedger (past : List Event) (limit : Nat) : Sharing (ledger past) limit where
  inv := Attended past
  begun _ := []
  done _ := True
  holds ha := ha.owes _ List.mem_cons_self
  perm ha hperm := by
    refine ⟨fun hsolo => ?_, fun cs hcs => ha.owes cs (hperm.mem_iff.mpr hcs), ha.jobs⟩
    rw [← hperm.length_eq]
    exact ha.one hsolo
  stretch := Attended.stretch
  leave ha _ := by
    refine ⟨fun hsolo => ?_, fun cs hcs => ha.owes cs (List.mem_cons_of_mem _ hcs), ha.jobs⟩
    exact Nat.le_trans (Nat.le_succ _) (ha.one hsolo)
  take {owed h} ha := by
    have hle : h.NoFewer { h with jobs := [] } := ⟨Nat.le_refl _, Nat.le_refl _⟩
    exact ⟨hle, ha.quiet hle rfl (List.append_nil _)⟩
  clock {cs owed h} ha t := by
    have hle : h.NoFewer { h with clock := t } := ⟨Nat.le_refl _, Nat.le_refl _⟩
    exact ⟨hle, ha.quiet hle rfl rfl⟩
  begin ha := by
    have hnot := ha.not_solo
    exact ⟨fun hsolo => absurd hsolo hnot, fun cs _ => .of_not_solo hnot,
      fun hsolo => absurd hsolo hnot⟩
  work ha := runJob_follows limit _ ha.not_solo

/-! ### Programs -/

/-- The cause of the fault that a program ends with. -/
def Failure.causes : Except Failure Value → List Cause
  | .error (.fault f) => [f.cause]
  | _ => []

namespace Session

/-- A session in which there has been nothing but main threads. -/
structure Alone (s : Session) : Prop where
  solo : s.heap.Solo
  waiting : s.waiting = []
  jobs : s.heap.jobs = []

/-- How the end of a program accounts for the faults that it has raised. -/
structure Accounts (s : Session) (result : Except Failure Value) (s' : Session) : Prop where
  alone : s'.Alone
  /-- Each fault that was raised is lost, or the program ends with it. -/
  balance : ∃ events, s'.heap.history = events ++ s.heap.history ∧
    (raisedIn events).Perm (lostIn events ++ Failure.causes result) ∧
    ((∃ f, result = .error (.fault f)) ↔ (lostIn events).length < (raisedIn events).length)

/-- The result of a program passes on what its outcome does. -/
theorem causes_of_outcome
    (h : Heap) (outcome : Except Signal Value) :
    Failure.causes (outcome.mapError (.ofSignal h)) = causes outcome := by
  cases outcome with
  | ok v =>
      rfl
  | error signal =>
      cases signal with
      | thrown e =>
          rfl
      | fault f =>
          rfl

/-- A program ends with a fault just if it ends with a cause. -/
theorem fault_iff_causes
    (result : Except Failure Value) :
    (∃ f, result = .error (.fault f)) ↔ 0 < (Failure.causes result).length := by
  unfold Failure.causes
  split
  · next f =>
      exact ⟨fun _ => Nat.one_pos, fun _ => ⟨f, rfl⟩⟩
  · next hother =>
      refine ⟨?_, fun hpos => absurd hpos (Nat.lt_irrefl 0)⟩
      rintro ⟨f, rfl⟩
      exact absurd rfl (hother f)

/-- What the main thread owes in the end is what the program ends with. -/
theorem accounts_of_steady
    {s : Session} {outcome : Except Signal Value}
    {ws : List Waiting} {h : Heap} {cs : List Cause} {owed lost : List (List Cause)}
    (hcrew : Crew (sharedLedger s.heap.history s.limit) h ws owed)
    (hs : (sharedLedger s.heap.history s.limit).inv (cs :: (owed ++ lost)) [] h)
    (howed : Passes [] outcome cs)
    (hsolo : h.Solo) :
    s.Accounts (outcome.mapError (.ofSignal h)) { s with heap := h, waiting := ws } := by
  have ha : Attended s.heap.history (cs :: (owed ++ lost)) [] h := hs
  obtain ⟨events, hevents, hperm⟩ := ha.owes cs List.mem_cons_self hsolo
  rw [howed, List.append_nil, ← causes_of_outcome h] at hperm
  have hws : ws = [] := by
    have hone := ha.one hsolo
    cases hcrew with
    | nil =>
        rfl
    | cons =>
        simp at hone
  refine ⟨⟨hsolo, hws, ha.jobs hsolo⟩, events, hevents, hperm, ?_⟩
  rw [fault_iff_causes, hperm.length_eq, List.length_append]
  omega

/-- If a program without threads, asynchronous calls and promises ends, then it ends with a fault
just if one of the faults that it has raised was not lost. -/
theorem runProgram_accounts
    (s : Session) (p : Program)
    (halone : s.Alone) (hsolo : (s.runProgram p).2.heap.Solo) :
    s.runProgram p = (.error .endless, s) ∨
      s.Accounts (s.runProgram p).1 (s.runProgram p).2 := by
  have howes : Owes s.heap.history [] s.heap := fun _ => ⟨[], rfl, .refl _⟩
  have hattended : (sharedLedger s.heap.history s.limit).inv ([] :: ([] ++ [])) [] s.heap := by
    refine ⟨fun _ => Nat.le_refl 1, fun cs hcs => ?_, fun _ => halone.jobs⟩
    rw [List.mem_singleton.mp hcs]
    exact howes
  have hrun := balanced_composed (.runIn s.env p.statements) s.heap.history
    (.ofLimit s.limit) [] s.heap howes
  have hcrew : Crew (sharedLedger s.heap.history s.limit) s.heap s.waiting [] := by
    rw [halone.waiting]
    exact .nil
  rcases runProgram_of_steady (.of_follows hcrew hattended hrun) with
    hendless | ⟨outcome, ws, h, cs, owed, lost, hresult, hcrew', hinv, howed⟩
  · exact .inl hendless
  · rw [hresult] at hsolo ⊢
    exact .inr (accounts_of_steady hcrew' hinv howed hsolo)

/-! ### A fault that is lost -/

/-- A session in which nothing is bound. -/
def bare (limit : Nat) : Session :=
  let r := Scopes.root default
  ⟨{ Heap.empty with scopes := r.2 }, r.1, limit, []⟩

/-- A division by zero. -/
def division : Stmt :=
  let s : Span := default
  .expression (.binary .divide (.int 1 s) (.int 0 s) s) s

/-- A division by zero in a loop that the cleanup breaks off, and then a value. -/
def brokenOff : Program :=
  let s : Span := default
  ⟨[.loop none [.attempt [division] [] (some [.stop s]) s] s, .expression (.int 5 s) s], s⟩

/-- A program of the division alone ends with its fault, and this one with the value. -/
theorem brokenOff_loses_fault :
    (bare 1).Alone ∧ ((bare 1).runProgram brokenOff).2.heap.Solo ∧
      (bare 1).Accounts ((bare 1).runProgram brokenOff).1 ((bare 1).runProgram brokenOff).2 ∧
      Failure.causes ((bare 1).runProgram ⟨[division], default⟩).1 = [.divisionByZero] ∧
      ((bare 1).runProgram brokenOff).1.toOption.isSome := by
  have halone : (bare 1).Alone := ⟨⟨rfl, rfl⟩, rfl, rfl⟩
  have hthreads : ((bare 1).runProgram brokenOff).2.heap.threads.size = 0 := by decide +kernel
  have hfutures : ((bare 1).runProgram brokenOff).2.heap.futures.size = 0 := by decide +kernel
  have hvalue : ((bare 1).runProgram brokenOff).1.toOption.isSome := by decide +kernel
  have haccounts := (runProgram_accounts (bare 1) brokenOff halone
    ⟨hthreads, hfutures⟩).resolve_left fun hendless => by
      rw [hendless] at hvalue
      cases hvalue
  exact ⟨halone, ⟨hthreads, hfutures⟩, haccounts, by decide +kernel, hvalue⟩

end Session
end ScriptEngine
