import ScriptEngine.Proofs.Futures.Settlement

/-!
# Chains of futures

Calls of `then`, `catch` and `finally` on futures, and on what such calls gave, make a forest: each
target has one call that made it, on a future that is older (`Run.fresh`).  Where callbacks are
functions, a target that only its own continuation settles has in the end the settlement that the
calls on the way to it make of that of the root (`derive`).  No order of steps is part of that: any
two runs that have come to their end agree.

The proof follows a continuation from its call on.  What was run is what a thread is to work on or
has worked on (`Run.shares`); who has worked on a continuation settles its target, and nobody else
settles it unless asked to (`Run.origin`, `Run.finish`).
-/

namespace ScriptEngine
namespace Settling

variable {C : Callbacks} {fs fs' : Futures} {p p' : Pc} {e : Event} {new : List Pc}
variable {s s' : State} {t id : Nat} {log later earlier : Log}
variable {message : Exception → String} {f : Value → List Value → Except Signal Value}

/-! ### What is settled in the end -/

/-- Callbacks that are functions of their arguments: each gives a value or raises a signal. -/
def Callbacks.ofFunction (message : Exception → String)
    (f : Value → List Value → Except Signal Value) : Callbacks :=
  ⟨message, fun callback args r => f callback args = r⟩

/-- The settlement that the answer of a callback gives. -/
def ofAnswer : Except Signal Value → Settlement
  | .ok v => .fulfilled v
  | .error s => Builtin.rejection s

/-- What a call with a callback makes of the settlement of its future.  `then` answers a value,
`catch` the message of a rejection; `finally` answers always, and only a failure counts. -/
def derive (message : Exception → String) (f : Value → List Value → Except Signal Value)
    (x : Settlement) : ChainStep × Value → Settlement
  | (.onFulfilled, callback) =>
    match x with
    | .fulfilled v => ofAnswer (f callback [v])
    | _ => x
  | (.onRejected, callback) =>
    match x with
    | .rejected e => ofAnswer (f callback [.str (message e)])
    | _ => x
  | (.always, callback) =>
    match f callback [] with
    | .ok _ => x
    | .error s => Builtin.rejection s

/-- The way of calls from a future to one that was made by the last of them. -/
inductive Log.Path (log : Log) (r : Nat) : List (ChainStep × Value) → Nat → Prop
  | root : Log.Path log r [] r
  | call {calls : List (ChainStep × Value)} {t u : Nat} {k : Continuation} :
      Log.Path log r calls u → (t, .registered u k) ∈ log →
      Log.Path log r (calls ++ [(k.step, k.callback)]) k.target

/-- Whether a thread has work to do that it can do without the help of others. -/
def Pc.isBusy : Pc → Bool
  | idle | waiting _ _ _ => false
  | _ => true

/-- Everything has run. -/
def State.Quiet (s : State) : Prop := ∀ p ∈ s.threads, p.isBusy = false

theorem derive_of_arguments?
    {k : Continuation} {x : Settlement} {args : List Value}
    (hargs : k.step.arguments? message x = some args) :
    derive message f x (k.step, k.callback) = k.step.conclude x (f k.callback args) := by
  cases hstep : k.step with
  | onFulfilled =>
      rw [hstep] at hargs
      cases x with
      | fulfilled v =>
          cases hargs
          cases hanswer : f k.callback [v] with
          | ok | error =>
              simp [derive, ofAnswer, ChainStep.conclude, hanswer]
      | pending | rejected | cancelled =>
          cases hargs
  | onRejected =>
      rw [hstep] at hargs
      cases x with
      | rejected e =>
          cases hargs
          cases hanswer : f k.callback [.str (message e)] with
          | ok | error =>
              simp [derive, ofAnswer, ChainStep.conclude, hanswer]
      | pending | fulfilled | cancelled =>
          cases hargs
  | always =>
      rw [hstep] at hargs
      cases hargs
      cases hanswer : f k.callback [] with
      | ok | error =>
          simp [derive, ChainStep.conclude, hanswer]

theorem derive_of_arguments?_eq_none
    {k : Continuation} {x : Settlement} (hargs : k.step.arguments? message x = none) :
    derive message f x (k.step, k.callback) = x := by
  cases hstep : k.step with
  | onFulfilled =>
      rw [hstep] at hargs
      cases x with
      | fulfilled v =>
          cases hargs
      | pending | rejected | cancelled =>
          rfl
  | onRejected =>
      rw [hstep] at hargs
      cases x with
      | rejected e =>
          cases hargs
      | pending | fulfilled | cancelled =>
          rfl
  | always =>
      rw [hstep] at hargs
      cases hargs

theorem rejection_ne_pending (sig : Signal) : Builtin.rejection sig ≠ .pending := by
  cases sig with
  | thrown | fault =>
      simp [Builtin.rejection]

theorem ofAnswer_ne_pending (r : Except Signal Value) : ofAnswer r ≠ .pending := by
  cases r with
  | ok v =>
      simp [ofAnswer]
  | error sig =>
      exact rejection_ne_pending sig

/-- What has settled stays settled on its way. -/
theorem derive_ne_pending
    {x : Settlement} (hx : x ≠ .pending) (call : ChainStep × Value) :
    derive message f x call ≠ .pending := by
  obtain ⟨step, callback⟩ := call
  cases step with
  | onFulfilled =>
      cases x with
      | fulfilled v =>
          exact ofAnswer_ne_pending _
      | pending | rejected | cancelled =>
          exact hx
  | onRejected =>
      cases x with
      | rejected e =>
          exact ofAnswer_ne_pending _
      | pending | fulfilled | cancelled =>
          exact hx
  | always =>
      cases hanswer : f callback [] with
      | ok v =>
          simpa [derive, hanswer] using hx
      | error sig =>
          simpa [derive, hanswer] using rejection_ne_pending sig

/-! ### Following a continuation -/

namespace Event

/-- The target of a continuation that is registered. -/
def target? : Event → Option Nat
  | registered _ k => some k.target
  | _ => none

/-- A continuation that is run, with the settlement that it gets. -/
def share? : Event → Option (Continuation × Settlement)
  | ran _ k x => some (k, x)
  | _ => none

/-- A continuation whose thread has done its work. -/
def worked? : Event → Option (Continuation × Settlement)
  | called k x _ | passed k x => some (k, x)
  | _ => none

/-- The target of a continuation whose callback is called. -/
def called? : Event → Option Nat
  | called k _ _ => some k.target
  | _ => none

end Event

namespace Log

/-- The targets of the continuations that were registered, the latest first. -/
def targets (log : Log) : List Nat := log.filterMap fun y => y.2.target?

/-- The continuations that were run, each with what it got. -/
def shares (log : Log) : List (Continuation × Settlement) := log.filterMap fun y => y.2.share?

/-- The continuations whose threads have done their work. -/
def worked (log : Log) : List (Continuation × Settlement) := log.filterMap fun y => y.2.worked?

/-- The targets of the continuations whose callbacks were called. -/
def calledFor (log : Log) : List Nat := log.filterMap fun y => y.2.called?

theorem targets_cons :
    targets ((t, e) :: log) = e.target?.toList ++ targets log := by
  cases he : e.target? with
  | none | some d =>
      simp [targets, he]

/-- Continuations of one future are some of all. -/
theorem registeredWith_sublist :
    ((log.registeredWith id).map Continuation.target).Sublist log.targets := by
  induction log with
  | nil =>
      exact .refl _
  | cons y log ih =>
      obtain ⟨t, e⟩ := y
      rw [registeredWith_cons, targets_cons, List.map_append]
      refine List.Sublist.append ?_ ih
      cases e with
      | registered i k =>
          by_cases heq : i = id
          · simp [Event.registered?, Event.target?, heq]
          · simp [Event.registered?, heq]
      | made | asked | settled | answered | ran | called | passed | awaited | gaveUp | looked
      | quiet =>
          exact .refl _

theorem exists_registered
    {d : Nat} (hmem : d ∈ log.targets) :
    ∃ i u k, (i, .registered u k) ∈ log ∧ k.target = d := by
  obtain ⟨⟨i, e⟩, hk, he⟩ := List.mem_filterMap.mp hmem
  cases e with
  | registered u k =>
      cases he
      exact ⟨i, u, k, hk, rfl⟩
  | made | asked | settled | answered | ran | called | passed | awaited | gaveUp | looked | quiet =>
      cases he

theorem shares_cons :
    shares ((t, e) :: log) = e.share?.toList ++ shares log := by
  cases he : e.share? with
  | none | some y =>
      simp [shares, he]

theorem worked_cons :
    worked ((t, e) :: log) = e.worked?.toList ++ worked log := by
  cases he : e.worked? with
  | none | some y =>
      simp [worked, he]

theorem exists_ran
    {k : Continuation} {x : Settlement} (hmem : (k, x) ∈ log.shares) :
    ∃ i u, (i, .ran u k x) ∈ log := by
  obtain ⟨⟨i, e⟩, hmem, he⟩ := List.mem_filterMap.mp hmem
  cases e with
  | ran u k' x' =>
      cases he
      exact ⟨i, u, hmem⟩
  | made | registered | asked | settled | answered | called | passed | awaited | gaveUp | looked
  | quiet =>
      cases he

/-- What is called is worked on. -/
theorem calledFor_sublist :
    log.calledFor.Sublist (log.worked.map fun y => y.1.target) := by
  induction log with
  | nil =>
      exact .refl _
  | cons y log ih =>
      obtain ⟨t, e⟩ := y
      rw [worked_cons, List.map_append]
      cases e with
      | called k x args =>
          exact ih.cons_cons _
      | passed k x =>
          exact ih.cons _
      | made | registered | asked | settled | answered | ran | awaited | gaveUp | looked | quiet =>
          exact ih

theorem exists_ran_of_ranFor
    {k : Continuation} (hmem : k ∈ log.ranFor id) :
    ∃ i x, (i, .ran id k x) ∈ log := by
  obtain ⟨⟨i, e⟩, hmem, he⟩ := List.mem_filterMap.mp hmem
  cases e with
  | ran u l x =>
      obtain ⟨rfl, heq⟩ := Option.ite_none_right_eq_some.mp he
      cases heq
      exact ⟨i, x, hmem⟩
  | made | registered | asked | settled | answered | called | passed | awaited | gaveUp | looked
  | quiet =>
      cases he

end Log

namespace Pc

/-- The target of a continuation that is yet to be registered. -/
def unregistered : Pc → List Nat
  | chaining _ k => [k.target]
  | _ => []

/-- The continuation that a thread is to work on. -/
def share : Pc → List (Continuation × Settlement)
  | working k x => [(k, x)]
  | _ => []

end Pc

/-- Where everything has run, the threads have nothing left that only busy ones have. -/
theorem State.Quiet.flatMap_eq_nil
    {β : Type} {φ : Pc → List β} (hquiet : s.Quiet) (hφ : ∀ p, p.isBusy = false → φ p = []) :
    s.threads.flatMap φ = [] :=
  List.flatMap_eq_nil_iff.mpr fun p hp => hφ p (hquiet p hp)

/-- The targets that calls have made, whether their continuations are registered or not yet. -/
def State.targets (s : State) (log : Log) : List Nat :=
  log.targets ++ s.threads.flatMap Pc.unregistered

/-- Nobody is asked to settle a target: it is left to its continuation. -/
def State.LeavesTargets (s : State) (log : Log) : Prop :=
  ∀ t d x, (t, .asked d x) ∈ log → d ∉ s.targets log

namespace Move

/-- Targets are new. -/
theorem fresh
    (h : Move C fs p e fs' p' new) :
    ∃ made, (e.target?.toList ++ (p'.unregistered ++ new.flatMap Pc.unregistered) ++ []).Perm
        (made ++ (p.unregistered ++ [])) ∧
      (made = [] ∨ made = [fs.length] ∧ e = .made fs.length ∧ fs.length < fs'.length) := by
  cases h with
  | chain step callback hlt =>
      exact ⟨[fs.length], .refl _, .inr ⟨rfl, rfl, by simp⟩⟩
  | find hlooks hdone =>
      cases hlooks with
      | idle | woken | timed =>
          exact ⟨[], .refl _, .inl rfl⟩
  | start | make | ask | settle | late | hand | handed | register | registerLate | run | call
  | pass | look | sleep | sleepAgain | giveUp =>
      exact ⟨[], .refl _, .inl rfl⟩

/-- What is run is worked on. -/
theorem shares
    (h : Move C fs p e fs' p' new) :
    (e.worked?.toList ++ (p'.share ++ new.flatMap Pc.share) ++ []).Perm
      (e.share?.toList ++ (p.share ++ [])) := by
  cases h with
  | find hlooks hdone =>
      cases hlooks with
      | idle | woken | timed =>
          exact .refl _
  | start | make | ask | settle | late | hand | handed | chain | register | registerLate | run
  | call | pass | look | sleep | sleepAgain | giveUp =>
      exact .refl _

/-- Who is about to settle a future leaves it settled, unless there is no settlement. -/
theorem settles
    {d : Nat} {x : Settlement} (h : Move C fs (.settling d x) e fs' p' new) (hx : x ≠ .pending) :
    (fs'.at d).isDone = true := by
  cases h with
  | settle hlt hsettle =>
      obtain ⟨hx, -, rfl, -⟩ := Future.settle?_eq_some_iff.mp hsettle
      rw [Futures.at_set_self hlt, Future.isDone, hx]
      rfl
  | late hnone =>
      rcases Future.settle?_eq_none_iff.mp hnone with hpending | hdone
      · exact absurd (Settlement.isPending_eq_true_iff.mp hpending) hx
      · exact hdone
  | find hlooks =>
      cases hlooks

end Move

/-- The targets after a step: at most one is new. -/
theorem Step.targets
    (h : Step C s t e s') (log : Log) :
    ∃ made, (s'.targets ((t, e) :: log)).Perm (made ++ s.targets log) ∧
      s.futures.length ≤ s'.futures.length ∧
        (made = [] ∨ made = [s.futures.length] ∧ e = .made s.futures.length ∧
          s.futures.length < s'.futures.length) := by
  obtain ⟨p, p', new, -, hmove, hledger⟩ := h.ledger (φ := Pc.unregistered) fun _ _ _ => rfl
  obtain ⟨made, hfresh, hmade⟩ := hmove.fresh
  have hperm := hledger hfresh log.targets
  rw [List.append_nil, List.append_nil, ← Log.targets_cons (t := t)] at hperm
  exact ⟨made, hperm, hmove.length_le, hmade⟩

namespace Run

/-- No two calls make the same target, and all targets are futures. -/
theorem fresh
    (h : Run C log s) :
    (s.targets log).Nodup ∧ ∀ d ∈ s.targets log, d < s.futures.length := by
  induction h with
  | start =>
      exact ⟨List.nodup_nil, fun d hd => by cases hd⟩
  | @step log s s' t e hrun hstep ih =>
      obtain ⟨made, hperm, hle, hmade⟩ := hstep.targets log
      simp only [hperm.nodup_iff, hperm.mem_iff]
      rcases hmade with rfl | ⟨rfl, -, hlt⟩
      · exact ⟨ih.1, fun d hd => Nat.lt_of_lt_of_le (ih.2 d hd) hle⟩
      · refine ⟨List.nodup_cons.mpr ⟨fun hmem => ?_, ih.1⟩, fun d hd => ?_⟩
        · exact Nat.lt_irrefl _ (ih.2 _ hmem)
        · rcases List.mem_cons.mp hd with rfl | hd
          · exact hlt
          · exact Nat.lt_of_lt_of_le (ih.2 d hd) hle

/-- What was run is what a thread is to work on or has worked on. -/
theorem shares
    (h : Run C log s) :
    (log.worked ++ s.threads.flatMap Pc.share).Perm log.shares := by
  induction h with
  | start =>
      exact .refl _
  | @step log s s' t e hrun hstep ih =>
      obtain ⟨p, p', new, -, hmove, hledger⟩ := hstep.ledger (φ := Pc.share) fun _ _ _ => rfl
      have hkept := hledger hmove.shares log.worked
      rw [List.append_nil, List.append_nil] at hkept
      rw [Log.worked_cons, Log.shares_cons]
      exact hkept.trans (ih.append_left _)

/-- The continuation that has a target, and the future with which it was registered. -/
theorem eq_of_target
    {i j u v : Nat} {k l : Continuation} (h : Run C log s)
    (hk : (i, .registered u k) ∈ log) (hl : (j, .registered v l) ∈ log)
    (htarget : k.target = l.target) :
    u = v ∧ k = l := by
  have hnodup := (List.nodup_append.mp h.fresh.1).1
  clear h
  induction log with
  | nil =>
      cases hk
  | cons y log ih =>
      obtain ⟨t, e⟩ := y
      have hmem {i u : Nat} {k : Continuation} (hk : (i, .registered u k) ∈ log) :
          k.target ∈ Log.targets log :=
        List.mem_filterMap.mpr ⟨_, hk, rfl⟩
      rw [Log.targets_cons] at hnodup
      obtain ⟨-, htail, hdisjoint⟩ := List.nodup_append.mp hnodup
      rcases List.mem_cons.mp hk with hk | hk
      · rcases List.mem_cons.mp hl with hl | hl
        · cases hk.trans hl.symm
          exact ⟨rfl, rfl⟩
        · cases hk
          exact absurd htarget (hdisjoint _ List.mem_cons_self _ (hmem ‹_›))
      · rcases List.mem_cons.mp hl with hl | hl
        · cases hl
          exact absurd htarget.symm (hdisjoint _ List.mem_cons_self _ (hmem ‹_›))
        · exact ih ‹_› ‹_› htail

/-- A continuation was registered if it was run. -/
theorem registered_of_ran
    {k : Continuation} {x : Settlement} (h : Run C log s) (hmem : (t, .ran id k x) ∈ log) :
    ∃ i, (i, .registered id k) ∈ log := by
  have hran : k ∈ log.ranFor id := List.mem_filterMap.mpr ⟨_, hmem, if_pos rfl⟩
  have hk := (h.balance id).mem_iff.mp
    (List.mem_append_left _ (List.mem_append_left _ hran))
  obtain ⟨⟨i, e⟩, hmem, he⟩ := List.mem_filterMap.mp hk
  cases e with
  | registered u k' =>
      obtain ⟨rfl, heq⟩ := Option.ite_none_right_eq_some.mp he
      cases heq
      exact ⟨i, hmem⟩
  | made | asked | settled | answered | ran | called | passed | awaited | gaveUp | looked | quiet =>
      cases he

/-- Whose thread has worked on a continuation was run. -/
theorem ran_of_worked
    {k : Continuation} {x : Settlement} (h : Run C log s) (hmem : (k, x) ∈ log.worked) :
    ∃ i u, (i, .ran u k x) ∈ log :=
  Log.exists_ran (h.shares.mem_iff.mp (List.mem_append_left _ hmem))

/-- What a continuation was run with is the settlement of the future. -/
theorem settlement_of_ran
    {k : Continuation} {x : Settlement} (h : Run C log s) (hmem : (t, .ran id k x) ∈ log) :
    (s.future id).isDone = true ∧ (s.future id).settlement = x :=
  h.tells hmem (if_pos rfl)

/-- What a thread is about to settle, or has settled, was asked for or comes of a continuation. -/
theorem origin
    {d : Nat} {x : Settlement} (h : Run (.ofFunction message f) log s)
    (hx : .settling d x ∈ s.threads ∨ (s.future d).isDone = true ∧ (s.future d).settlement = x) :
    (∃ i, (i, .asked d x) ∈ log) ∨
      ∃ k y, (k, y) ∈ log.worked ∧ k.target = d ∧ derive message f y (k.step, k.callback) = x := by
  induction h with
  | start =>
      rcases hx with hmem | ⟨hdone, -⟩
      · cases List.mem_singleton.mp hmem
      · cases hdone
  | @step log s s' t e hrun hstep ih =>
      have hworked {y : Continuation × Settlement} (hy : y ∈ log.worked) :
          y ∈ Log.worked ((t, e) :: log) :=
        Log.worked_cons (t := t) ▸ List.mem_append_right _ hy
      have hbefore (hx : .settling d x ∈ s.threads ∨
          (s.future d).isDone = true ∧ (s.future d).settlement = x) :
          (∃ i, (i, .asked d x) ∈ (t, e) :: log) ∨
            ∃ k y, (k, y) ∈ Log.worked ((t, e) :: log) ∧ k.target = d ∧
              derive message f y (k.step, k.callback) = x := by
        rcases ih hx with ⟨i, hi⟩ | ⟨k, y, hy, heq⟩
        · exact .inl ⟨i, List.mem_cons_of_mem _ hi⟩
        · exact .inr ⟨k, y, hworked hy, heq⟩
      rcases hx with hmem | ⟨hdone, rfl⟩
      · obtain ⟨p, p', new, ht, hmove, hcase⟩ := hstep.mem_threads hmem
        rcases hcase with rfl | hnew | ⟨q, hq, heq⟩
        · generalize s'.futures = fs at hmove
          cases hmove with
          | ask =>
              exact .inl ⟨t, List.mem_cons_self⟩
          | @call k y args r hargs hanswer =>
              cases hanswer
              exact .inr ⟨k, y, List.mem_cons_self, rfl, derive_of_arguments? hargs⟩
          | @pass k y hargs =>
              exact .inr ⟨k, _, List.mem_cons_self, rfl, derive_of_arguments?_eq_none hargs⟩
        · rcases hmove.eq_of_mem_new hnew with heq | ⟨_, _, _, -, heq⟩
          · cases heq
          · cases heq
        · exact hbefore (.inl (Event.eq_of_wake_eq (by simp) heq.symm ▸ hq))
      · cases hopen : (s.future d).isDone with
        | true =>
            exact hbefore (.inr ⟨hopen, ((hstep.change d).settlement_eq hopen).symm⟩)
        | false =>
            have he := (hstep.change d).eq_settled hopen hdone
            obtain ⟨p, p', new, ht, hmove, -⟩ := hstep.own
            have hp : p = .settling d (s'.future d).settlement := by
              rw [he] at hmove
              generalize s'.futures = fs at hmove
              cases hmove
              rfl
            exact hbefore (.inl (hp ▸ List.mem_of_getElem? ht))

/-- Who has worked on a continuation is about to settle its target, unless that has settled. -/
theorem finish
    {k : Continuation} {x : Settlement} (h : Run (.ofFunction message f) log s)
    (hmem : (k, x) ∈ log.worked) :
    .settling k.target (derive message f x (k.step, k.callback)) ∈ s.threads ∨
      (s.future k.target).isDone = true := by
  induction h with
  | start =>
      cases hmem
  | @step log s s' t e hrun hstep ih =>
      obtain ⟨p, p', new, ht, hmove, hown⟩ := hstep.own
      rw [Log.worked_cons] at hmem
      rcases List.mem_append.mp hmem with hnow | hbefore
      · left
        generalize s'.futures = fs at hmove
        cases hmove with
        | @call k' y args r hargs hanswer =>
            cases List.mem_singleton.mp hnow
            cases hanswer
            have hderive := derive_of_arguments? (f := f) hargs
            rwa [← hderive] at hown
        | @pass k' y hargs =>
            cases List.mem_singleton.mp hnow
            have hderive := derive_of_arguments?_eq_none (f := f) hargs
            rwa [← hderive] at hown
        | start | make | ask | settle | late | hand | handed | chain | register | registerLate
        | run | look | find | sleep | sleepAgain | giveUp =>
            cases hnow
      · have hkept (hdone : (s.future k.target).isDone = true) :=
          (hstep.change k.target).isDone_mono hdone
        rcases ih hbefore with hsettling | hdone
        · rcases hstep.mem_or_own hsettling (by simp) with hself | hother
          · right
            cases ht.symm.trans hself
            obtain ⟨i, u, hran⟩ := hrun.ran_of_worked hbefore
            obtain ⟨hdone, rfl⟩ := hrun.settlement_of_ran hran
            have hx : (s.future u).settlement ≠ .pending := fun hpending => by
              cases hdone.symm.trans (Future.isDone_eq_false_iff.mpr hpending)
            exact hmove.settles (derive_ne_pending hx _)
          · exact .inl hother
        · exact .inr (hkept hdone)

/-- What a call on a future makes is younger. -/
theorem older
    {u : Nat} {k : Continuation} (h : Run C log s)
    (hk : (∃ i, (i, .registered u k) ∈ log) ∨ .chaining u k ∈ s.threads) :
    u < k.target := by
  induction h with
  | start =>
      rcases hk with ⟨i, hi⟩ | hmem
      · cases hi
      · cases List.mem_singleton.mp hmem
  | @step log s s' t e hrun hstep ih =>
      rcases hk with ⟨i, hi⟩ | hmem
      · rcases List.mem_cons.mp hi with heq | hi
        · cases heq
          obtain ⟨p, p', new, ht, hmove, -⟩ := hstep.own
          have hp : p = .chaining u k := by
            generalize s'.futures = fs at hmove
            cases hmove with
            | register | registerLate =>
                rfl
          exact ih (.inr (hp ▸ List.mem_of_getElem? ht))
        · exact ih (.inl ⟨i, hi⟩)
      · obtain ⟨p, p', new, ht, hmove, hcase⟩ := hstep.mem_threads hmem
        rcases hcase with rfl | hnew | ⟨q, hq, heq⟩
        · generalize s'.futures = fs at hmove
          cases hmove with
          | chain _ _ hlt =>
              exact hlt
        · rcases hmove.eq_of_mem_new hnew with heq | ⟨_, _, _, -, heq⟩
          · cases heq
          · cases heq
        · exact ih (.inr (Event.eq_of_wake_eq (by simp) heq.symm ▸ hq))

/-- Nobody is asked to settle what is not there. -/
theorem lt_of_asked
    {d : Nat} {x : Settlement} (h : Run C log s) (hmem : (t, .asked d x) ∈ log) :
    d < s.futures.length := by
  induction h with
  | start =>
      cases hmem
  | @step log s s' t e hrun hstep ih =>
      obtain ⟨p, p', new, -, hmove, -⟩ := hstep.own
      rcases List.mem_cons.mp hmem with heq | hmem
      · cases heq
        generalize s'.futures = fs at hmove ⊢
        cases hmove with
        | ask _ hlt =>
            exact hlt
      · exact Nat.lt_of_lt_of_le (ih hmem) hmove.length_le

/-- A continuation that was run has a target. -/
theorem mem_targets_of_ran
    {k : Continuation} {x : Settlement} (h : Run C log s) (hmem : (t, .ran id k x) ∈ log) :
    k.target ∈ s.targets log := by
  obtain ⟨i, hk⟩ := h.registered_of_ran hmem
  exact List.mem_append_left _ (List.mem_filterMap.mpr ⟨_, hk, rfl⟩)

/-- No continuation of a future is run twice. -/
theorem nodup_ranFor
    (h : Run C log s) (id : Nat) :
    (log.ranFor id).Nodup := by
  have htargets : (log.registeredWith id).Nodup :=
    .of_map Continuation.target
      (Log.registeredWith_sublist.nodup (List.nodup_append.mp h.fresh.1).1)
  have hall := (h.balance id).nodup_iff.mpr htargets
  exact (List.nodup_append.mp (List.nodup_append.mp hall).1).1

/-- Of what was run, no two continuations have the same target. -/
theorem nodup_shares
    (h : Run C log s) :
    (log.shares.map fun y => y.1.target).Nodup := by
  induction h with
  | start =>
      exact List.nodup_nil
  | @step log s s' t e hrun hstep ih =>
      have hrun' := hrun.step hstep
      rw [Log.shares_cons]
      cases e with
      | ran u k x =>
          refine List.nodup_cons.mpr ⟨fun hmem => ?_, ih⟩
          obtain ⟨⟨l, y⟩, hl, htarget⟩ := List.mem_map.mp hmem
          obtain ⟨j, v, hran⟩ := Log.exists_ran hl
          obtain ⟨i, hk⟩ := hrun'.registered_of_ran List.mem_cons_self
          obtain ⟨i', hk'⟩ := hrun'.registered_of_ran (List.mem_cons_of_mem _ hran)
          obtain ⟨rfl, rfl⟩ := hrun'.eq_of_target hk' hk htarget
          have hnodup := hrun'.nodup_ranFor v
          rw [Log.ranFor_cons, Event.ran?, if_pos rfl] at hnodup
          exact (List.nodup_cons.mp hnodup).1 (List.mem_filterMap.mpr ⟨_, hran, if_pos rfl⟩)
      | made | registered | asked | settled | answered | called | passed | awaited | gaveUp | looked
      | quiet =>
          exact ih

/-- A continuation whose thread has worked, with the future that it was registered with. -/
theorem settlement_of_worked
    {i u : Nat} {k l : Continuation} {x : Settlement} (h : Run C log s)
    (hk : (i, .registered u k) ∈ log) (hmem : (l, x) ∈ log.worked) (htarget : l.target = k.target) :
    l = k ∧ (s.future u).isDone = true ∧ (s.future u).settlement = x := by
  obtain ⟨j, v, hran⟩ := h.ran_of_worked hmem
  obtain ⟨j', hl⟩ := h.registered_of_ran hran
  obtain ⟨rfl, rfl⟩ := h.eq_of_target hl hk htarget
  exact ⟨rfl, h.settlement_of_ran hran⟩

/-- What a target settles with comes of the settlement of the future that the call was made on. -/
theorem derived
    {u : Nat} {k : Continuation} (h : Run (.ofFunction message f) log s)
    (hleaves : s.LeavesTargets log) (hk : (t, .registered u k) ∈ log)
    (hdone : (s.future k.target).isDone = true) :
    (s.future u).isDone = true ∧
      (s.future k.target).settlement =
        derive message f (s.future u).settlement (k.step, k.callback) := by
  rcases h.origin (.inr ⟨hdone, rfl⟩) with ⟨i, hasked⟩ | ⟨l, y, hworked, htarget, heq⟩
  · have hmem : k.target ∈ log.targets := List.mem_filterMap.mpr ⟨_, hk, rfl⟩
    exact absurd (List.mem_append_left _ hmem) (hleaves _ _ _ hasked)
  · obtain ⟨rfl, hu, rfl⟩ := h.settlement_of_worked hk hworked htarget
    exact ⟨hu, heq.symm⟩

/-- Once everything has run, a continuation of a settled future has done its work. -/
theorem mem_worked
    {u : Nat} {k : Continuation} (h : Run C log s) (hquiet : s.Quiet)
    (hk : (t, .registered u k) ∈ log) (hdone : (s.future u).isDone = true) :
    (k, (s.future u).settlement) ∈ log.worked := by
  have hheld : s.held u = [] := hquiet.flatMap_eq_nil fun p hp => by
    cases p with
    | idle | waiting =>
        rfl
    | settling | handing | chaining | holding | working =>
        cases hp
  have hshare : s.threads.flatMap Pc.share = [] := hquiet.flatMap_eq_nil fun p hp => by
    cases p with
    | idle | waiting =>
        rfl
    | settling | handing | chaining | holding | working =>
        cases hp
  have hbalance := h.balance u
  rw [hheld, h.waiting_eq_nil hdone, List.append_nil, List.append_nil] at hbalance
  have hran : k ∈ log.ranFor u :=
    hbalance.mem_iff.mpr (List.mem_filterMap.mpr ⟨_, hk, if_pos rfl⟩)
  obtain ⟨i, x, hmem⟩ := Log.exists_ran_of_ranFor hran
  obtain ⟨-, rfl⟩ := h.settlement_of_ran hmem
  have hshares := h.shares
  rw [hshare, List.append_nil] at hshares
  exact hshares.mem_iff.mpr (List.mem_filterMap.mpr ⟨_, hmem, rfl⟩)

/-- Once everything has run, the targets of a settled future have settled. -/
theorem passedOn
    {u : Nat} {k : Continuation} (h : Run (.ofFunction message f) log s) (hquiet : s.Quiet)
    (hk : (t, .registered u k) ∈ log) (hdone : (s.future u).isDone = true) :
    (s.future k.target).isDone = true := by
  rcases h.finish (h.mem_worked hquiet hk hdone) with hsettling | hdone
  · cases hquiet _ hsettling
  · exact hdone

/-- What has happened was the move of a thread. -/
theorem exists_move
    (h : Run C log s) (hmem : (t, e) ∈ log) :
    ∃ fs p fs' p' new, Move C fs p e fs' p' new := by
  obtain ⟨later, earlier, hlog⟩ := List.append_of_mem hmem
  obtain ⟨s₁, s₂, -, hstep⟩ := h.split hlog
  obtain ⟨p, p', new, -, hmove, -⟩ := hstep.own
  exact ⟨_, _, _, _, _, hmove⟩

/-- A callback is called only if its case applies, and with what the case gives. -/
theorem arguments?_of_called
    {k : Continuation} {x : Settlement} {args : List Value} (h : Run C log s)
    (hmem : (t, .called k x args) ∈ log) :
    k.step.arguments? C.message x = some args := by
  obtain ⟨fs, p, fs', p', new, hmove⟩ := h.exists_move hmem
  cases hmove with
  | call hargs _ =>
      exact hargs

/-- A callback whose case applies is called by the thread that works on its continuation. -/
theorem exists_called
    {k : Continuation} {x : Settlement} {args : List Value} (h : Run C log s)
    (hmem : (k, x) ∈ log.worked) (hargs : k.step.arguments? C.message x = some args) :
    ∃ i, (i, .called k x args) ∈ log := by
  obtain ⟨⟨i, e⟩, hmem, he⟩ := List.mem_filterMap.mp hmem
  cases e with
  | called l y args' =>
      cases he
      cases hargs.symm.trans (h.arguments?_of_called hmem)
      exact ⟨i, hmem⟩
  | passed l y =>
      cases he
      obtain ⟨fs, p, fs', p', new, hmove⟩ := h.exists_move hmem
      cases hmove with
      | pass hnone =>
          cases hargs.symm.trans hnone
  | made | registered | asked | settled | answered | ran | awaited | gaveUp | looked | quiet =>
      cases he

/-- No callback is called twice for a target. -/
theorem nodup_calledFor
    (h : Run C log s) :
    log.calledFor.Nodup := by
  have hshares := (h.shares.map fun y => y.1.target).nodup_iff.mpr h.nodup_shares
  rw [List.map_append] at hshares
  exact Log.calledFor_sublist.nodup (List.nodup_append.mp hshares).1

end Run
end Settling
end ScriptEngine
