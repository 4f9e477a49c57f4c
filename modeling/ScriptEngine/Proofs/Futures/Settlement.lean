import ScriptEngine.Proofs.Futures.Steps

/-!
# Futures settle once

Of all attempts to settle a future exactly one succeeds, if there is one with a settlement, and what
it settled stays.  Every continuation that was registered, before or after that, is run exactly once,
with this settlement.

The proof is a balance: the continuations that were registered with a future are those that it
stores, those that a thread has yet to run, and those that were run (`Move.balance`).  Since a
settled future stores none, all that is left is in the hands of threads that need nobody else to go
on.

Each fact is proved for one move and then, by induction, for a whole run.
-/

namespace ScriptEngine
namespace Settling

variable {C : Callbacks} {fs fs' : Futures} {p p' : Pc} {e : Event} {new : List Pc}
variable {s s' : State} {t id : Nat} {log later earlier : Log}

namespace Event

/-- The continuation that is registered with a future. -/
def registered? (id : Nat) : Event → Option Continuation
  | registered i k => if i = id then some k else none
  | _ => none

/-- The continuation of a future that is run. -/
def ran? (id : Nat) : Event → Option Continuation
  | ran i k _ => if i = id then some k else none
  | _ => none

/-- What a future is settled with. -/
def settled? (id : Nat) : Event → Option Settlement
  | settled i x => if i = id then some x else none
  | _ => none

/-- What the attempt to settle a future has settled that reports success. -/
def won? (id : Nat) : Event → Option Settlement
  | answered i x true => if i = id then some x else none
  | _ => none

theorem eq_settled
    {x : Settlement} (he : e.settled? id = some x) :
    e = .settled id x := by
  cases e with
  | settled i y =>
      obtain ⟨rfl, heq⟩ := Option.ite_none_right_eq_some.mp he
      cases heq
      rfl
  | made | registered | asked | answered | ran | called | passed | awaited | gaveUp | looked
  | quiet =>
      cases he

/-- The settlement of a future that an event tells of. -/
def tells? (id : Nat) : Event → Option Settlement
  | settled i x | answered i x true | ran i _ x | awaited i x => if i = id then some x else none
  | _ => none

end Event

namespace Log

/-- The continuations registered with a future, the latest first. -/
def registeredWith (id : Nat) (log : Log) : List Continuation :=
  log.filterMap fun y => y.2.registered? id

/-- The continuations of a future that were run, the latest first. -/
def ranFor (id : Nat) (log : Log) : List Continuation := log.filterMap fun y => y.2.ran? id

/-- What the attempts to settle a future that reported success have settled. -/
def wonFor (id : Nat) (log : Log) : List Settlement := log.filterMap fun y => y.2.won? id

theorem registeredWith_cons :
    registeredWith id ((t, e) :: log) = (e.registered? id).toList ++ registeredWith id log := by
  cases he : e.registered? id with
  | none | some k =>
      simp [registeredWith, he]

theorem ranFor_cons :
    ranFor id ((t, e) :: log) = (e.ran? id).toList ++ ranFor id log := by
  cases he : e.ran? id with
  | none | some k =>
      simp [ranFor, he]

theorem ranFor_append :
    ranFor id (later ++ earlier) = ranFor id later ++ ranFor id earlier := by
  simp [ranFor]

theorem wonFor_cons :
    wonFor id ((t, e) :: log) = (e.won? id).toList ++ wonFor id log := by
  cases he : e.won? id with
  | none | some x =>
      simp [wonFor, he]

end Log

/-- The settlement of a future, if it has settled. -/
def outcome (f : Future Continuation) : List Settlement :=
  if f.isDone then [f.settlement] else []

namespace Pc

/-- The continuations of a future that a thread is yet to run. -/
def held (id : Nat) : Pc → List Continuation
  | handing i _ ks => if i = id then ks else []
  | holding i k _ => if i = id then [k] else []
  | _ => []

/-- What a thread has settled, if it is yet to report that. -/
def announcing (id : Nat) : Pc → List Settlement
  | handing i x _ => if i = id then [x] else []
  | _ => []

end Pc

namespace State

/-- The continuations of a future that some thread is yet to run. -/
def held (s : State) (id : Nat) : List Continuation := s.threads.flatMap (Pc.held id)

/-- What the threads have settled that are yet to report it. -/
def announcing (s : State) (id : Nat) : List Settlement := s.threads.flatMap (Pc.announcing id)

end State

/-! ### One move -/

namespace Change

variable {f f' : Future Continuation}

/-- A settlement stays. -/
theorem settlement_eq
    (h : Change id e f f') (hdone : f.isDone = true) :
    f'.settlement = f.settlement := by
  cases h with
  | same _ _ =>
      rfl
  | made kind hpending _ =>
      cases hdone.symm.trans (Future.isDone_eq_false_iff.mpr hpending)
  | settled _ hopen | registered hopen =>
      cases hdone.symm.trans hopen

theorem isDone_mono
    (h : Change id e f f') (hdone : f.isDone = true) :
    f'.isDone = true := by
  rw [Future.isDone, h.settlement_eq hdone]
  exact hdone

/-- A settled future stores no continuations. -/
theorem waiting_eq_nil
    (h : Change id e f f') (hwaiting : f.isDone = true → f.waiting = [])
    (hdone : f'.isDone = true) :
    f'.waiting = [] := by
  cases h with
  | same _ _ =>
      exact hwaiting hdone
  | made _ _ _ | settled _ _ =>
      rfl
  | registered hopen =>
      cases hdone.symm.trans hopen

/-- What a future has settled with is what an event has settled it with. -/
theorem outcome_eq
    (h : Change id e f f') :
    outcome f' = outcome f ++ (e.settled? id).toList := by
  cases h with
  | @same e f hsettled hregistered =>
      have hnone : e.settled? id = none := by
        cases e with
        | settled i x =>
            refine if_neg fun heq => hsettled x ?_
            rw [heq]
        | made | registered | asked | answered | ran | called | passed | awaited | gaveUp | looked
        | quiet =>
            rfl
      rw [hnone]
      exact (List.append_nil _).symm
  | made kind hpending _ =>
      rw [outcome, outcome, Future.isDone_eq_false_iff.mpr hpending]
      rfl
  | @settled x f hx hopen =>
      have hdone : ({ f with settlement := x, waiting := [] } : Future Continuation).isDone = true := by
        simp [Future.isDone, hx]
      rw [outcome, outcome, hopen, hdone]
      simp [Event.settled?]
  | registered hopen =>
      exact (List.append_nil _).symm

/-- An open future settles by one event only. -/
theorem eq_settled
    (h : Change id e f f') (hopen : f.isDone = false) (hdone : f'.isDone = true) :
    e = .settled id f'.settlement := by
  have houtcome := h.outcome_eq
  rw [outcome, outcome, hopen, hdone] at houtcome
  exact Event.eq_settled (by simpa using houtcome.symm)

end Change

namespace Move

/-- A continuation that is registered is run, held by a thread, or stored. -/
theorem balance
    (h : Move C fs p e fs' p' new) (id : Nat) :
    ((e.ran? id).toList ++ (p'.held id ++ new.flatMap (Pc.held id)) ++ (fs'.at id).waiting).Perm
      ((e.registered? id).toList ++ (p.held id ++ (fs.at id).waiting)) := by
  have hmade {f : Future Continuation} (hf : f.waiting = []) :
      (Futures.at (fs ++ [f]) id).waiting = (fs.at id).waiting := by
    by_cases heq : id = fs.length
    · subst heq
      rw [Futures.at_append_self, Futures.at_of_length_le (Nat.le_refl _)]
      exact hf
    · rw [Futures.at_append_of_ne heq]
  cases h with
  | make kind =>
      simp [Event.ran?, Event.registered?, Pc.held, hmade (f := .ofKind kind) rfl]
  | chain step callback hlt =>
      simp [Event.ran?, Event.registered?, Pc.held, hmade (f := .ofKind .promise) rfl]
  | @settle i x f ks hlt hsettle =>
      obtain ⟨-, -, rfl, rfl⟩ := Future.settle?_eq_some_iff.mp hsettle
      by_cases heq : i = id
      · subst heq
        simp [Event.ran?, Event.registered?, Pc.held, Futures.at_set_self hlt]
      · simp [Event.ran?, Event.registered?, Pc.held, Futures.at_set_of_ne heq, heq]
  | @hand i x k ks =>
      by_cases heq : i = id
      · simp [Event.ran?, Event.registered?, Pc.held, heq]
      · simp [Event.ran?, Event.registered?, Pc.held, heq]
  | @register i k f hlt hregister =>
      obtain ⟨-, rfl⟩ := Future.onSettle_eq_none_iff.mp hregister
      by_cases heq : i = id
      · subst heq
        simp [Event.ran?, Event.registered?, Pc.held, Futures.at_set_self hlt]
      · simp [Event.ran?, Event.registered?, Pc.held, Futures.at_set_of_ne heq, heq]
  | @registerLate i k f x hregister =>
      by_cases heq : i = id
      · simp [Event.ran?, Event.registered?, Pc.held, heq]
      · simp [Event.ran?, Event.registered?, Pc.held, heq]
  | @run i k x =>
      by_cases heq : i = id
      · simp [Event.ran?, Event.registered?, Pc.held, heq]
      · simp [Event.ran?, Event.registered?, Pc.held, heq]
  | handed =>
      simp [Event.ran?, Event.registered?, Pc.held]
  | find hlooks hdone =>
      cases hlooks with
      | idle | woken | timed =>
          simp [Event.ran?, Event.registered?, Pc.held]
  | start | ask | late | call | pass | look | sleep | sleepAgain | giveUp =>
      simp [Event.ran?, Event.registered?, Pc.held]

/-- What has been settled is reported once, by the thread that settled it. -/
theorem report
    (h : Move C fs p e fs' p' new) (id : Nat) :
    (e.won? id).toList ++ (p'.announcing id ++ new.flatMap (Pc.announcing id)) ++ [] =
      (e.settled? id).toList ++ (p.announcing id ++ []) := by
  cases h with
  | @settle i x f ks hlt hsettle =>
      by_cases heq : i = id
      · simp [Event.won?, Event.settled?, Pc.announcing, heq]
      · simp [Event.won?, Event.settled?, Pc.announcing, heq]
  | @hand i x k ks | @handed i x =>
      by_cases heq : i = id
      · simp [Event.won?, Event.settled?, Pc.announcing, heq]
      · simp [Event.won?, Event.settled?, Pc.announcing, heq]
  | find hlooks hdone =>
      cases hlooks with
      | idle | woken | timed =>
          rfl
  | start | make | ask | late | chain | register | registerLate | run | call | pass | look | sleep
  | sleepAgain | giveUp =>
      rfl

end Move

/-- What a thread knows of the settlement of a future is so. -/
def Pc.Knows (fs : Futures) : Pc → Prop
  | handing i x _ | holding i _ x => (fs.at i).isDone = true ∧ (fs.at i).settlement = x
  | _ => True

namespace Pc.Knows

/-- What a thread knows stays so. -/
theorem after
    {q : Pc} (h : Move C fs p e fs' p' new) (hq : q.Knows fs) :
    q.Knows fs' := by
  have hkeep {i : Nat} {x : Settlement}
      (hi : (fs.at i).isDone = true ∧ (fs.at i).settlement = x) :
      (fs'.at i).isDone = true ∧ (fs'.at i).settlement = x :=
    ⟨(h.change i).isDone_mono hi.1, ((h.change i).settlement_eq hi.1).trans hi.2⟩
  cases q with
  | handing | holding =>
      exact hkeep hq
  | idle | waiting | settling | chaining | working =>
      trivial

theorem wake
    {q : Pc} (e : Event) (hq : q.Knows fs) :
    (e.wake q).Knows fs := by
  cases q with
  | waiting i timed notified =>
      obtain ⟨notified', heq, -⟩ := e.wake_waiting i timed notified
      rw [heq]
      trivial
  | idle | settling | handing | chaining | holding | working =>
      rwa [Event.wake_eq (by simp)]

end Pc.Knows

namespace Move

/-- What a thread learns about the settlement of a future is so. -/
theorem knows
    (h : Move C fs p e fs' p' new) (hp : p.Knows fs) :
    p'.Knows fs' := by
  cases h with
  | @settle i x f ks hlt hsettle =>
      obtain ⟨hx, -, rfl, -⟩ := Future.settle?_eq_some_iff.mp hsettle
      refine ⟨?_, ?_⟩
      · rw [Futures.at_set_self hlt]
        simp [Future.isDone, hx]
      · rw [Futures.at_set_self hlt]
  | hand =>
      exact hp
  | registerLate hregister =>
      obtain ⟨hdone, -, heq⟩ := Future.onSettle_eq_some_iff.mp hregister
      exact ⟨hdone, heq.symm⟩
  | start | make | ask | late | handed | chain | register | run | call | pass | look | find | sleep
  | sleepAgain | giveUp =>
      trivial

/-- An event tells of the settlement that a future has. -/
theorem tells
    {x : Settlement} (h : Move C fs p e fs' p' new) (hp : p.Knows fs)
    (htells : e.tells? id = some x) :
    (fs'.at id).isDone = true ∧ (fs'.at id).settlement = x := by
  cases h with
  | @settle i y f ks hlt hsettle =>
      have hknows := (Move.settle (C := C) hlt hsettle).knows hp
      obtain ⟨rfl, heq⟩ := Option.ite_none_right_eq_some.mp htells
      cases heq
      exact hknows
  | @hand i y k ks | @handed i y | @run i k y =>
      obtain ⟨rfl, heq⟩ := Option.ite_none_right_eq_some.mp htells
      cases heq
      exact hp
  | @find i q hlooks hdone =>
      obtain ⟨rfl, heq⟩ := Option.ite_none_right_eq_some.mp htells
      cases heq
      exact ⟨hdone, rfl⟩
  | start | make | ask | late | chain | register | registerLate | call | pass | look | sleep
  | sleepAgain | giveUp =>
      cases htells

end Move

namespace Step

/-- A move that a thread can make. -/
theorem exists_of_move
    (ht : s.threads[t]? = some p) (hmove : Move C s.futures p e fs p' new) :
    ∃ s', Step C s t e s' ∧ s'.futures = fs ∧ s'.threads[t]? = some p' := by
  refine ⟨_, .move ht hmove, rfl, ?_⟩
  obtain ⟨hlt, -⟩ := List.getElem?_eq_some_iff.mp ht
  rw [List.getElem?_append_left (by simpa using hlt)]
  simp [hlt]

end Step

/-! ### Whole runs -/

namespace Run

/-- The continuations registered with a future are those that were run, those that a thread is yet
to run, and those that the future stores. -/
theorem balance
    (h : Run C log s) (id : Nat) :
    (log.ranFor id ++ s.held id ++ (s.future id).waiting).Perm (log.registeredWith id) := by
  induction h with
  | start =>
      exact .refl _
  | @step log s s' t e _ hstep ih =>
      obtain ⟨p, p', new, -, hmove, hledger⟩ := hstep.ledger (φ := Pc.held id) fun _ _ _ => rfl
      rw [Log.ranFor_cons, Log.registeredWith_cons]
      exact (hledger (hmove.balance id) _).trans (ih.append_left _)

/-- What a future was settled with is reported once, or will be. -/
theorem report
    (h : Run C log s) (id : Nat) :
    (log.wonFor id ++ s.announcing id).Perm (outcome (s.future id)) := by
  induction h with
  | start =>
      exact .refl _
  | @step log s s' t e _ hstep ih =>
      obtain ⟨p, p', new, -, hmove, hledger⟩ :=
        hstep.ledger (φ := Pc.announcing id) fun _ _ _ => rfl
      have hperm := List.Perm.of_eq (hmove.report id)
      have hkept := hledger hperm (log.wonFor id)
      rw [List.append_nil, List.append_nil] at hkept
      rw [Log.wonFor_cons, (hstep.change id).outcome_eq]
      exact hkept.trans (List.perm_append_comm.trans (ih.append_right _))

/-- A settled future stores no continuations. -/
theorem waiting_eq_nil
    (h : Run C log s) (hdone : (s.future id).isDone = true) :
    (s.future id).waiting = [] := by
  induction h with
  | start =>
      cases hdone
  | step _ hstep ih =>
      exact (hstep.change id).waiting_eq_nil ih hdone

/-- What threads know of settlements is so. -/
theorem knows
    (h : Run C log s) :
    ∀ p ∈ s.threads, p.Knows s.futures := by
  induction h with
  | start =>
      intro p hp
      cases List.mem_singleton.mp hp
      trivial
  | step _ hstep ih =>
      intro q hq
      obtain ⟨p, p', new, ht, hmove, hcase⟩ := hstep.mem_threads hq
      rcases hcase with rfl | hnew | ⟨q₀, hq₀, rfl⟩
      · exact hmove.knows (ih p (List.mem_of_getElem? ht))
      · rcases hmove.eq_of_mem_new hnew with rfl | ⟨-, k, x, -, rfl⟩
        · trivial
        · trivial
      · exact ((ih q₀ hq₀).after hmove).wake _

/-- Events tell of the settlement that a future has ever after. -/
theorem tells
    (h : Run C log s) {x : Settlement} (hmem : (t, e) ∈ log) (htells : e.tells? id = some x) :
    (s.future id).isDone = true ∧ (s.future id).settlement = x := by
  induction h with
  | start =>
      cases hmem
  | step hrun hstep ih =>
      rcases List.mem_cons.mp hmem with heq | hmem
      · cases heq
        obtain ⟨p, p', new, ht, hmove, -⟩ := hstep.own
        exact hmove.tells (hrun.knows p (List.mem_of_getElem? ht)) htells
      · obtain ⟨hdone, heq⟩ := ih hmem
        exact ⟨(hstep.change id).isDone_mono hdone, ((hstep.change id).settlement_eq hdone).trans heq⟩

/-- A settled future was settled by some thread. -/
theorem exists_settled
    (h : Run C log s) (hdone : (s.future id).isDone = true) :
    ∃ i, (i, .settled id (s.future id).settlement) ∈ log := by
  induction h with
  | start =>
      cases hdone
  | @step log s s' t e hrun hstep ih =>
      cases hbefore : (s.future id).isDone with
      | true =>
          obtain ⟨i, hi⟩ := ih hbefore
          rw [(hstep.change id).settlement_eq hbefore]
          exact ⟨i, List.mem_cons_of_mem _ hi⟩
      | false =>
          exact ⟨t, (hstep.change id).eq_settled hbefore hdone ▸ List.mem_cons_self⟩

/-- What was the run when an event happened. -/
theorem split
    (h : Run C log s) (hlog : log = later ++ (t, e) :: earlier) :
    ∃ s₁ s₂, Run C earlier s₁ ∧ Step C s₁ t e s₂ := by
  induction h generalizing later with
  | start =>
      cases later with
      | nil | cons _ _ =>
          cases hlog
  | step hrun hstep ih =>
      cases later with
      | nil =>
          cases hlog
          exact ⟨_, _, hrun, hstep⟩
      | cons y later =>
          cases hlog
          exact ih rfl

/-- Who runs a continuation, or reports a settlement, does so when the future has settled. -/
theorem settled_before
    (h : Run C log s) {x : Settlement} (hlog : log = later ++ (t, e) :: earlier)
    (htells : e.tells? id = some x) (hne : e ≠ .settled id x) :
    ∃ i, (i, .settled id x) ∈ earlier := by
  obtain ⟨s₁, s₂, hrun, hstep⟩ := h.split hlog
  obtain ⟨hdone, heq⟩ := (hrun.step hstep).tells List.mem_cons_self htells
  obtain ⟨i, hi⟩ := (hrun.step hstep).exists_settled hdone
  rw [heq] at hi
  rcases List.mem_cons.mp hi with hself | hmem
  · cases hself
    exact absurd rfl hne
  · exact ⟨i, hmem⟩

/-- Who looks at a future sees that it is open, or what it has been settled with. -/
theorem looked
    (h : Run C log s) {x : Settlement} (hlog : log = later ++ (t, .looked id x) :: earlier) :
    x = .pending ∧ (∀ i y, (i, .settled id y) ∉ earlier) ∨
      ∃ i, (i, .settled id x) ∈ earlier := by
  obtain ⟨s₁, s₂, hrun, hstep⟩ := h.split hlog
  have heq : x = (s₁.future id).settlement := by
    obtain ⟨p, p', new, -, hmove, -⟩ := hstep.own
    generalize s₂.futures = fs at hmove
    cases hmove
    rfl
  subst heq
  cases hdone : (s₁.future id).isDone with
  | true =>
      exact .inr (hrun.exists_settled hdone)
  | false =>
      refine .inl ⟨Future.isDone_eq_false_iff.mp hdone, fun i y hmem => ?_⟩
      have htells : Event.tells? id (.settled id y) = some y := if_pos rfl
      cases hdone.symm.trans (hrun.tells hmem htells).1

/-- Who did not settle a future had no settlement, or came late. -/
theorem lost
    (h : Run C log s) {x : Settlement} (hlog : log = later ++ (t, .answered id x false) :: earlier) :
    x = .pending ∨ ∃ i y, (i, .settled id y) ∈ earlier := by
  obtain ⟨s₁, s₂, hrun, hstep⟩ := h.split hlog
  obtain ⟨p, p', new, -, hmove, -⟩ := hstep.own
  generalize s₂.futures = fs at hmove
  cases hmove with
  | late hnone =>
      rcases Future.settle?_eq_none_iff.mp hnone with hpending | hdone
      · exact .inl (Settlement.isPending_eq_true_iff.mp hpending)
      · obtain ⟨i, hi⟩ := hrun.exists_settled hdone
        exact .inr ⟨i, _, hi⟩

/-- Nobody settles a future with no settlement. -/
theorem settled_ne_pending
    (h : Run C log s) {x : Settlement} (hmem : (t, .settled id x) ∈ log) :
    x ≠ .pending := by
  have htells : Event.tells? id (.settled id x) = some x := if_pos rfl
  obtain ⟨hdone, rfl⟩ := h.tells hmem htells
  intro hpending
  cases hdone.symm.trans (Future.isDone_eq_false_iff.mpr hpending)

/-- Nobody sleeps at a settled future without having been woken. -/
theorem open_of_sleeping
    (h : Run C log s) {timed : Bool} (hmem : .waiting id timed false ∈ s.threads) :
    (s.future id).isDone = false := by
  induction h with
  | start =>
      cases List.mem_singleton.mp hmem
  | @step log s s' t e hrun hstep ih =>
      obtain ⟨p, p', new, ht, hmove, hcase⟩ := hstep.mem_threads hmem
      rcases hcase with rfl | hnew | ⟨q, hq, heq⟩
      · rw [State.future]
        generalize s'.futures = fs at hmove ⊢
        cases hmove with
        | sleep _ hopen | sleepAgain hopen =>
            exact hopen
      · rcases hmove.eq_of_mem_new hnew with heq | ⟨_, _, _, -, heq⟩
        · cases heq
        · cases heq
      · cases q with
        | waiting i timed' notified =>
            obtain ⟨notified', hwake, hsettled, hkept⟩ := e.wake_waiting i timed' notified
            cases hwake.symm.trans heq.symm
            have hbefore : notified = false := Bool.eq_false_iff.mpr fun htrue => by
              cases hkept htrue
            subst hbefore
            refine Bool.eq_false_iff.mpr fun hdone => ?_
            cases hsettled ⟨_, (hstep.change id).eq_settled (ih hq) hdone⟩
        | idle | settling | handing | chaining | holding | working =>
            rw [Event.wake_eq (by simp)] at heq
            cases heq

/-- A thread that has settled a future can run its continuations without the help of others. -/
theorem hands
    {i : Nat} {x : Settlement} {ks : List Continuation} (h : Run C log s)
    (ht : s.threads[t]? = some (.handing i x ks)) (id : Nat) :
    ∃ later s', Run C (later ++ log) s' ∧ (∀ y ∈ later, y.1 = t) ∧
      s'.threads[t]? = some (.handing i x []) ∧
        (Log.ranFor id later).Perm (Pc.held id (.handing i x ks)) := by
  induction ks generalizing log s with
  | nil =>
      refine ⟨[], s, h, by simp, ht, ?_⟩
      simp [Log.ranFor, Pc.held]
  | cons k ks ih =>
      obtain ⟨s₁, hstep, -, ht₁⟩ := Step.exists_of_move ht (.hand (C := C))
      obtain ⟨later, s', hrun, hmine, ht', hran⟩ := ih (h.step hstep) ht₁
      refine ⟨later ++ [(t, .ran i k x)], s', by simpa using hrun, ?_, ht', ?_⟩
      · intro y hy
        rcases List.mem_append.mp hy with hy | hy
        · exact hmine y hy
        · cases List.mem_singleton.mp hy
          rfl
      · rw [Log.ranFor_append]
        by_cases heq : i = id
        · subst heq
          simpa [Log.ranFor, Event.ran?, Pc.held] using
            (List.perm_append_singleton k _).trans (hran.cons k)
        · simpa [Log.ranFor, Event.ran?, Pc.held, heq] using hran

/-- A thread that is yet to run continuations can do so without the help of others. -/
theorem runsOn
    (h : Run C log s) (ht : s.threads[t]? = some p) (id : Nat) :
    ∃ later s' p', Run C (later ++ log) s' ∧ (∀ y ∈ later, y.1 = t) ∧
      s'.threads[t]? = some p' ∧ p'.held id = [] ∧ (Log.ranFor id later).Perm (p.held id) := by
  cases p with
  | handing i x ks =>
      obtain ⟨later, s', hrun, hmine, ht', hran⟩ := h.hands ht id
      exact ⟨later, s', _, hrun, hmine, ht', by simp [Pc.held], hran⟩
  | holding i k x =>
      obtain ⟨s', hstep, -, ht'⟩ := Step.exists_of_move ht (.run (C := C))
      refine ⟨[(t, .ran i k x)], s', _, h.step hstep, by simp, ht', rfl, ?_⟩
      by_cases heq : i = id
      · simp [Log.ranFor, Event.ran?, Pc.held, heq]
      · simp [Log.ranFor, Event.ran?, Pc.held, heq]
  | idle | waiting | settling | chaining | working =>
      exact ⟨[], s, _, h, by simp, ht, rfl, .refl _⟩

end Run

/-! ### The law -/

/-- A future settles once, and its continuations run once. -/
structure SettlesOnce (C : Callbacks) (log : Log) (s : State) (id : Nat) : Prop where
  /-- One attempt to settle a settled future has reported success or is about to, and none one to
  settle an open future. -/
  winner : (log.wonFor id ++ s.announcing id).Perm
    (if (s.future id).isDone then [(s.future id).settlement] else [])
  /-- An attempt to settle a future reports failure if it has no settlement or comes late. -/
  losers : ∀ t x (later earlier : Log), log = later ++ (t, .answered id x false) :: earlier →
    x = .pending ∨ ∃ i y, (i, .settled id y) ∈ earlier
  /-- A settled future was settled at some time. -/
  settled : (s.future id).isDone = true → ∃ t, (t, .settled id (s.future id).settlement) ∈ log
  /-- What a future was settled with at some time is a settlement, and stays. -/
  stays : ∀ t x, (t, .settled id x) ∈ log →
    x ≠ .pending ∧ (s.future id).isDone = true ∧ (s.future id).settlement = x
  /-- Who looks at a future before that sees that it is open, and after that its settlement. -/
  looks : ∀ t x (later earlier : Log), log = later ++ (t, .looked id x) :: earlier →
    x = .pending ∧ (∀ i y, (i, .settled id y) ∉ earlier) ∨ ∃ i, (i, .settled id x) ∈ earlier
  /-- The continuations registered with a future are those that were run, those that a thread is yet
  to run, and those that the future stores. -/
  balance : (log.ranFor id ++ s.held id ++ (s.future id).waiting).Perm (log.registeredWith id)
  /-- A settled future stores none. -/
  released : (s.future id).isDone = true → (s.future id).waiting = []
  /-- A thread that is yet to run continuations can do so without the help of others. -/
  runsOn : ∀ t p, s.threads[t]? = some p →
    ∃ later s' p', Run C (later ++ log) s' ∧ (∀ y ∈ later, y.1 = t) ∧
      s'.threads[t]? = some p' ∧ p'.held id = [] ∧ (Log.ranFor id later).Perm (p.held id)
  /-- A continuation is run after the future has settled, and receives its settlement. -/
  received : ∀ t k x (later earlier : Log), log = later ++ (t, .ran id k x) :: earlier →
    (s.future id).settlement = x ∧ ∃ i, (i, .settled id x) ∈ earlier
  /-- A wait that ends with a settlement ends with that of the future, after it has settled. -/
  waits : ∀ t x (later earlier : Log), log = later ++ (t, .awaited id x) :: earlier →
    (s.future id).settlement = x ∧ ∃ i, (i, .settled id x) ∈ earlier
  /-- Who sleeps without having been woken waits for an open future. -/
  asleep : ∀ timed, .waiting id timed false ∈ s.threads → (s.future id).isDone = false

/-- Every future settles once and its continuations run once, whatever the order of the steps of the
threads. -/
theorem Run.settlesOnce
    (h : Run C log s) (id : Nat) :
    SettlesOnce C log s id where
  winner := h.report id
  losers := fun _ _ _ _ hlog => h.lost hlog
  settled := h.exists_settled
  stays := fun _ _ hmem =>
    ⟨h.settled_ne_pending hmem, h.tells hmem (if_pos rfl)⟩
  looks := fun _ _ _ _ hlog => h.looked hlog
  balance := h.balance id
  released := h.waiting_eq_nil
  runsOn := fun _ _ ht => h.runsOn ht id
  received := fun t k x later earlier hlog => by
    have htells : Event.tells? id (.ran id k x) = some x := if_pos rfl
    refine ⟨?_, h.settled_before hlog htells (by simp)⟩
    exact (h.tells (hlog ▸ List.mem_append_right _ List.mem_cons_self) htells).2
  waits := fun t x later earlier hlog => by
    have htells : Event.tells? id (.awaited id x) = some x := if_pos rfl
    refine ⟨?_, h.settled_before hlog htells (by simp)⟩
    exact (h.tells (hlog ▸ List.mem_append_right _ List.mem_cons_self) htells).2
  asleep := fun _ hmem => h.open_of_sleeping hmem

/-- A continuation is registered with a future, two threads settle it, and another continuation is
registered: one attempt succeeds, and both continuations are run. -/
theorem settlesOnce_twoThreads :
    let C : Callbacks := ⟨fun _ => "", fun _ _ r => r = .ok .nil⟩
    ∃ (log : Log) (s : State), Run C log s ∧ SettlesOnce C log s 0 ∧
      log.wonFor 0 = [.cancelled] ∧ log.head? = some (0, .answered 0 (.fulfilled .nil) false) ∧
      log.ranFor 0 = [⟨.onRejected, .nil, 2⟩, ⟨.always, .nil, 1⟩] := by
  intro C
  -- thread 0 makes a future, registers a continuation and starts thread 1
  have h₁ := (Run.start (C := C)).step (.move (t := 0) rfl (.make .completable))
  have h₂ : Run C _ ⟨[.ofKind .completable, .ofKind .promise], [.chaining 0 ⟨.always, .nil, 1⟩]⟩ :=
    h₁.step (.move (t := 0) rfl (.chain .always .nil (by decide)))
  have h₃ := h₂.step (.move (t := 0) rfl (.register (by decide) rfl))
  have h₄ := h₃.step (.move (t := 0) rfl .start)
  -- both settle the future; thread 1 comes first
  have h₅ : Run C ((0, .asked 0 (.fulfilled .nil)) :: _) _ :=
    h₄.step (.move rfl (.ask (.fulfilled .nil) (by decide)))
  have h₆ : Run C ((1, .asked 0 .cancelled) :: _) _ :=
    h₅.step (.move rfl (.ask .cancelled (by decide)))
  have h₇ := h₆.step (.move (t := 1) rfl (.settle (by decide) rfl))
  have h₈ := h₇.step (.move (t := 1) rfl .hand)
  have h₉ := h₈.step (.move (t := 1) rfl .handed)
  -- thread 1 registers another continuation before thread 0 goes on
  have h₁₀ : Run C _ ⟨_, [_, .chaining 0 _, _]⟩ :=
    h₉.step (.move (t := 1) rfl (.chain .onRejected .nil (by decide)))
  have h₁₁ := h₁₀.step (.move (t := 1) rfl (.registerLate rfl))
  have h₁₂ := h₁₁.step (.move (t := 1) rfl .run)
  have h₁₃ := h₁₂.step (.move (t := 0) rfl (.late rfl))
  exact ⟨_, _, h₁₃, h₁₃.settlesOnce 0, rfl, rfl, rfl⟩

end Settling
end ScriptEngine
