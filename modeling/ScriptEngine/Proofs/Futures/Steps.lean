import Mathlib.Algebra.Order.Group.Multiset
import Mathlib.Tactic.Abel
import ScriptEngine.Future.Settling

/-!
# Steps at futures

What the two operations on a future do, and what a step of one thread leaves of the futures and of
the threads.

A step is the move of one thread; the others are at most woken.  So what all threads have changes by
what the moving thread had and has, and by what the threads that it starts have.  Where one move
keeps a balance between that and what is told in the log, a run keeps it (`Step.ledger`).
-/

namespace ScriptEngine

namespace Future

variable {κ : Type} {f g : Future κ} {k : κ} {ks : List κ} {x : Settlement}

theorem settle?_eq_some_iff :
    f.settle? x = some (g, ks) ↔
      x.isPending = false ∧ f.isDone = false ∧
        g = { f with settlement := x, waiting := [] } ∧ ks = f.waiting := by
  unfold settle?
  split
  · next hnot =>
      rcases Bool.or_eq_true_iff.mp hnot with hpending | hdone
      · simp [hpending]
      · simp [hdone]
  · next hnot =>
      obtain ⟨hpending, hdone⟩ := Bool.or_eq_false_iff.mp (Bool.eq_false_iff.mpr hnot)
      simp only [hpending, hdone, true_and, Option.some.injEq, Prod.mk.injEq, eq_comm]

theorem settle?_eq_none_iff :
    f.settle? x = none ↔ x.isPending = true ∨ f.isDone = true := by
  unfold settle?
  split
  · next h =>
      exact ⟨fun _ => Bool.or_eq_true_iff.mp h, fun _ => rfl⟩
  · next h =>
      exact ⟨(by simp), fun hor => absurd (Bool.or_eq_true_iff.mpr hor) h⟩

theorem onSettle_eq_none_iff :
    f.onSettle k = (g, none) ↔
      f.isDone = false ∧ g = { f with waiting := f.waiting ++ [k] } := by
  unfold onSettle
  split
  · next hdone =>
      simp [hdone]
  · next hopen =>
      simp [hopen, eq_comm]

theorem onSettle_eq_some_iff :
    f.onSettle k = (g, some x) ↔ f.isDone = true ∧ g = f ∧ x = f.settlement := by
  unfold onSettle
  split
  · next hdone =>
      simp [hdone, eq_comm]
  · next hopen =>
      simp [hopen]

theorem isDone_eq_false_iff :
    f.isDone = false ↔ f.settlement = .pending := by
  unfold isDone
  cases f.settlement with
  | pending | fulfilled _ | rejected _ | cancelled =>
      simp [Settlement.isPending]

end Future

theorem Settlement.isPending_eq_true_iff
    {x : Settlement} :
    x.isPending = true ↔ x = .pending := by
  cases x with
  | pending | fulfilled _ | rejected _ | cancelled =>
      simp [Settlement.isPending]

namespace Settling

variable {C : Callbacks} {fs fs' : Futures} {p p' : Pc} {e : Event} {new : List Pc}
variable {s s' : State} {t id : Nat}

/-! ### The futures -/

namespace Futures

theorem at_set_self
    {f : Future Continuation} (hlt : id < fs.length) :
    Futures.at (fs.set id f) id = f := by
  simp [Futures.at, hlt]

theorem at_set_of_ne
    {i : Nat} {f : Future Continuation} (hne : i ≠ id) :
    Futures.at (fs.set i f) id = fs.at id := by
  simp [Futures.at, hne]

theorem at_of_length_le
    (hle : fs.length ≤ id) :
    fs.at id = default := by
  simp [Futures.at, hle]

theorem at_append_of_ne
    {f : Future Continuation} (hne : id ≠ fs.length) :
    Futures.at (fs ++ [f]) id = fs.at id := by
  rcases Nat.lt_or_gt_of_ne hne with hlt | hgt
  · simp [Futures.at, List.getElem?_append_left hlt]
  · have hle : (fs ++ [f]).length ≤ id := by
      rw [List.length_append]
      exact hgt
    rw [at_of_length_le hle, at_of_length_le (Nat.le_of_lt hgt)]

theorem at_append_self
    {f : Future Continuation} :
    Futures.at (fs ++ [f]) fs.length = f := by
  simp [Futures.at]

end Futures

/-- What an event does to a future. -/
inductive Change (id : Nat) : Event → Future Continuation → Future Continuation → Prop
  | same {e : Event} {f : Future Continuation} :
      (∀ x, e ≠ .settled id x) → (∀ k, e = .registered id k → f.isDone = true) →
      Change id e f f
  | made {f : Future Continuation} (kind : FutureKind) :
      f.settlement = .pending → f.waiting = [] →
      Change id (.made id) f (.ofKind kind)
  | settled {x : Settlement} {f : Future Continuation} :
      x.isPending = false → f.isDone = false →
      Change id (.settled id x) f { f with settlement := x, waiting := [] }
  | registered {k : Continuation} {f : Future Continuation} :
      f.isDone = false →
      Change id (.registered id k) f { f with waiting := f.waiting ++ [k] }

namespace Move

/-- A move changes at most the future that its event is about. -/
theorem change
    (h : Move C fs p e fs' p' new) (id : Nat) :
    Change id e (fs.at id) (fs'.at id) := by
  have hmade (kind : FutureKind) :
      Change id (.made fs.length) (fs.at id) (Futures.at (fs ++ [.ofKind kind]) id) := by
    by_cases heq : id = fs.length
    · subst heq
      rw [Futures.at_append_self, Futures.at_of_length_le (Nat.le_refl _)]
      exact .made kind rfl rfl
    · rw [Futures.at_append_of_ne heq]
      exact .same (by simp) (by simp)
  cases h with
  | make kind =>
      exact hmade kind
  | chain step callback hlt =>
      exact hmade .promise
  | @settle i x f ks hlt hsettle =>
      obtain ⟨hx, hopen, rfl, -⟩ := Future.settle?_eq_some_iff.mp hsettle
      by_cases heq : i = id
      · subst heq
        rw [Futures.at_set_self hlt]
        exact .settled hx hopen
      · rw [Futures.at_set_of_ne heq]
        exact .same (by simp [heq]) (by simp)
  | @register i k f hlt hregister =>
      obtain ⟨hopen, rfl⟩ := Future.onSettle_eq_none_iff.mp hregister
      by_cases heq : i = id
      · subst heq
        rw [Futures.at_set_self hlt]
        exact .registered hopen
      · rw [Futures.at_set_of_ne heq]
        exact .same (by simp) (by simp [heq])
  | @registerLate i k f x hregister =>
      obtain ⟨hdone, -, -⟩ := Future.onSettle_eq_some_iff.mp hregister
      refine .same (by simp) fun k' heq => ?_
      cases heq
      exact hdone
  | start | ask | late | hand | handed | run | call | pass | look | find | sleep | sleepAgain
  | giveUp =>
      exact .same (by simp) (by simp)

theorem length_le
    (h : Move C fs p e fs' p' new) :
    fs.length ≤ fs'.length := by
  cases h with
  | make | chain =>
      simp
  | settle | register =>
      simp
  | start | ask | late | hand | handed | registerLate | run | call | pass | look | find | sleep
  | sleepAgain | giveUp =>
      exact Nat.le_refl _

/-- The threads that a move starts do nothing yet, or are to run a continuation. -/
theorem eq_of_mem_new
    (h : Move C fs p e fs' p' new) {q : Pc} (hq : q ∈ new) :
    q = .idle ∨ ∃ id k x, e = .ran id k x ∧ q = .working k x := by
  cases h with
  | start =>
      exact .inl (List.mem_singleton.mp hq)
  | hand | run =>
      exact .inr ⟨_, _, _, rfl, List.mem_singleton.mp hq⟩
  | make | ask | settle | late | handed | chain | register | registerLate | call | pass | look
  | find | sleep | sleepAgain | giveUp =>
      cases hq

end Move

/-! ### The threads -/

theorem Event.wake_eq
    {e : Event} {p : Pc} (hp : ∀ i timed notified, p ≠ .waiting i timed notified) :
    e.wake p = p := by
  cases e with
  | settled i x =>
      cases p with
      | waiting i timed notified =>
          exact absurd rfl (hp i timed notified)
      | idle | settling | handing | chaining | holding | working =>
          rfl
  | made | registered | asked | answered | ran | called | passed | awaited | gaveUp | looked
  | quiet =>
      rfl

/-- A thread that an event may have woken still waits. -/
theorem Event.wake_waiting
    (e : Event) (i : Nat) (timed notified : Bool) :
    ∃ notified', e.wake (.waiting i timed notified) = .waiting i timed notified' ∧
      ((∃ x, e = .settled i x) → notified' = true) ∧ (notified = true → notified' = true) := by
  cases e with
  | settled j x =>
      refine ⟨notified || i == j, rfl, ?_, ?_⟩
      · rintro ⟨x', heq⟩
        cases heq
        simp
      · rintro rfl
        rfl
  | made | registered | asked | answered | ran | called | passed | awaited | gaveUp | looked
  | quiet =>
      exact ⟨notified, rfl, by simp, fun h => h⟩

theorem Event.eq_of_wake_eq
    {e : Event} {p q : Pc} (hp : ∀ i timed notified, p ≠ .waiting i timed notified)
    (h : e.wake q = p) :
    q = p := by
  cases q with
  | waiting i timed notified =>
      obtain ⟨notified', heq, -⟩ := e.wake_waiting i timed notified
      exact absurd (h.symm.trans heq) (hp i timed notified')
  | idle | settling | handing | chaining | holding | working =>
      rwa [Event.wake_eq (by simp)] at h

section Threads

variable {β : Type} {φ : Pc → List β}

theorem flatMap_wake
    (hφ : ∀ i timed notified, φ (.waiting i timed notified) = []) (e : Event) (ps : List Pc) :
    (ps.map e.wake).flatMap φ = ps.flatMap φ := by
  have hwake (p : Pc) : φ (e.wake p) = φ p := by
    cases p with
    | waiting i timed notified =>
        obtain ⟨notified', heq, -⟩ := e.wake_waiting i timed notified
        rw [heq, hφ, hφ]
    | idle | settling | handing | chaining | holding | working =>
        rw [Event.wake_eq (by simp)]
  induction ps with
  | nil =>
      rfl
  | cons p ps ih =>
      rw [List.map_cons, List.flatMap_cons, List.flatMap_cons, hwake, ih]

/-- What all threads have is what one of them has and what the others have. -/
theorem flatMap_of_getElem?
    {ps : List Pc} (ht : ps[t]? = some p) :
    (ps.flatMap φ).Perm (φ p ++ (ps.eraseIdx t).flatMap φ) := by
  obtain ⟨hlt, rfl⟩ := List.getElem?_eq_some_iff.mp ht
  exact (List.getElem_cons_eraseIdx_perm hlt).symm.flatMap_right φ

/-- A balance that the move of a thread keeps is kept by all threads together: `gain` comes in,
`loss` goes out and is told, and the rest is kept apart from the threads. -/
theorem Step.ledger
    (hφ : ∀ i timed notified, φ (.waiting i timed notified) = []) (h : Step C s t e s') :
    ∃ p p' new, s.threads[t]? = some p ∧ Move C s.futures p e s'.futures p' new ∧
      ∀ {gain loss apart apart' : List β},
        (loss ++ (φ p' ++ new.flatMap φ) ++ apart').Perm (gain ++ (φ p ++ apart)) →
          ∀ told : List β, (loss ++ told ++ s'.threads.flatMap φ ++ apart').Perm
            (gain ++ (told ++ s.threads.flatMap φ ++ apart)) := by
  cases h with
  | @move p p' e fs new ht hmove =>
      refine ⟨p, p', new, ht, hmove, fun {gain loss apart apart'} hmoved told => ?_⟩
      obtain ⟨hlt, -⟩ := List.getElem?_eq_some_iff.mp ht
      have hlt' : t < (s.threads.map e.wake).length := by
        rwa [List.length_map]
      have hbefore := flatMap_of_getElem? (φ := φ) ht
      have hafter := (List.set_perm_cons_eraseIdx hlt' p').flatMap_right φ
      rw [List.flatMap_cons, List.eraseIdx_map, flatMap_wake hφ] at hafter
      rw [List.flatMap_append]
      simp only [← Multiset.coe_eq_coe, ← Multiset.coe_add] at *
      generalize (List.flatMap φ new : Multiset β) = started at *
      generalize (List.flatMap φ (s.threads.eraseIdx t) : Multiset β) = others at *
      rw [hafter, hbefore]
      calc
        _ = (loss + (φ p' + started) + apart' : Multiset β) + (told + others) := by
          abel
        _ = (gain + (φ p + apart) : Multiset β) + (told + others) := by
          rw [hmoved]
        _ = _ := by
          abel

end Threads

/-- A thread after a step: it has made the step, or was started by it, or was at most woken. -/
theorem Step.mem_threads
    (h : Step C s t e s') {q : Pc} (hq : q ∈ s'.threads) :
    ∃ p p' new, s.threads[t]? = some p ∧ Move C s.futures p e s'.futures p' new ∧
      (q = p' ∨ q ∈ new ∨ ∃ q₀ ∈ s.threads, q = e.wake q₀) := by
  cases h with
  | @move p p' e fs new ht hmove =>
      refine ⟨p, p', new, ht, hmove, ?_⟩
      rcases List.mem_append.mp hq with hold | hnew
      · rcases List.mem_or_eq_of_mem_set hold with hother | hself
        · obtain ⟨q₀, hq₀, rfl⟩ := List.mem_map.mp hother
          exact .inr (.inr ⟨q₀, hq₀, rfl⟩)
        · exact .inl hself
      · exact .inr (.inl hnew)

/-- A thread that does not wait makes the step or stays as it is. -/
theorem Step.mem_or_own
    (h : Step C s t e s') {q : Pc} (hq : q ∈ s.threads)
    (hwaits : ∀ i timed notified, q ≠ .waiting i timed notified) :
    s.threads[t]? = some q ∨ q ∈ s'.threads := by
  cases h with
  | @move p p' e fs new ht hmove =>
      obtain ⟨j, hj, rfl⟩ := List.getElem_of_mem hq
      by_cases heq : t = j
      · subst heq
        exact .inl (List.getElem?_eq_getElem hj)
      · refine .inr (List.mem_append_left _ (List.mem_of_getElem? (i := j) ?_))
        rw [List.getElem?_set_ne heq, List.getElem?_map, List.getElem?_eq_getElem hj,
          Option.map_some, Event.wake_eq hwaits]

/-- A step is the move of its thread. -/
theorem Step.own
    (h : Step C s t e s') :
    ∃ p p' new, s.threads[t]? = some p ∧ Move C s.futures p e s'.futures p' new ∧
      p' ∈ s'.threads := by
  cases h with
  | @move p p' e fs new ht hmove =>
      obtain ⟨hlt, -⟩ := List.getElem?_eq_some_iff.mp ht
      have hmem : p' ∈ (s.threads.map e.wake).set t p' := List.mem_set (by simpa using hlt) p'
      exact ⟨p, p', new, ht, hmove, List.mem_append_left _ hmem⟩

theorem Step.change
    (h : Step C s t e s') (id : Nat) :
    Change id e (s.future id) (s'.future id) := by
  cases h with
  | move ht hmove =>
      exact hmove.change id

end Settling
end ScriptEngine
