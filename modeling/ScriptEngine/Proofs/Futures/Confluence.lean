import ScriptEngine.Proofs.Futures.Chains

/-!
# Confluence of chains

However threads take turns, chains of futures come to an end (`Run.exists_quiet`), and the end does
not depend on the turns: a target has the settlement that the calls on the way to it make of that of
the root, and a callback was called just where its case came up.

A run comes to an end since each step of a busy thread takes away from the work that is left
(`State.work`); a continuation is worth less with each thread that it passes.
-/

namespace ScriptEngine
namespace Settling

variable {C : Callbacks} {fs fs' : Futures} {p p' : Pc} {e : Event} {new : List Pc}
variable {s s' : State} {t id : Nat} {log later earlier : Log}
variable {message : Exception → String} {f : Value → List Value → Except Signal Value}

/-! ### The work that is left -/

/-- The work that is left to a thread. -/
def Pc.work : Pc → Nat
  | idle | waiting _ _ _ => 0
  | settling _ _ => 2
  | working _ _ => 3
  | holding _ _ _ => 4
  | chaining _ _ => 5
  | handing _ _ ks => 1 + 4 * ks.length

/-- The work that is left in the continuations that futures store. -/
def Futures.work (fs : Futures) : Nat := (fs.map fun f => 4 * f.waiting.length).sum

/-- The work that is left. -/
def State.work (s : State) : Nat := (s.threads.map Pc.work).sum + s.futures.work

theorem Futures.work_set
    {f : Future Continuation} (hlt : id < fs.length) :
    Futures.work (fs.set id f) + 4 * (fs.at id).waiting.length =
      fs.work + 4 * f.waiting.length := by
  have hbefore := ((List.getElem_cons_eraseIdx_perm hlt).symm.map fun f : Future Continuation =>
    4 * f.waiting.length).sum_nat
  have hafter := ((List.set_perm_cons_eraseIdx hlt f).map fun f : Future Continuation =>
    4 * f.waiting.length).sum_nat
  simp only [List.map_cons, List.sum_cons] at hbefore hafter
  have hat : fs.at id = fs[id] := by
    simp [Futures.at, hlt]
  rw [Futures.work, Futures.work, hbefore, hafter, hat]
  omega

theorem Event.work_wake
    (e : Event) (p : Pc) :
    (e.wake p).work = p.work := by
  cases p with
  | waiting i timed notified =>
      obtain ⟨notified', heq, -⟩ := e.wake_waiting i timed notified
      rw [heq]
      rfl
  | idle | settling | handing | chaining | holding | working =>
      rw [Event.wake_eq (by simp)]

/-- A move after which less work is left can be made. -/
theorem Step.exists_of_work_lt
    (ht : s.threads[t]? = some p) (hmove : Move C s.futures p e fs' p' new)
    (hlt : p'.work + (new.map Pc.work).sum + fs'.work < p.work + s.futures.work) :
    ∃ s', Step C s t e s' ∧ s'.work < s.work := by
  refine ⟨_, .move ht hmove, ?_⟩
  obtain ⟨hlength, rfl⟩ := List.getElem?_eq_some_iff.mp ht
  have hwake : (s.threads.map e.wake).map Pc.work = s.threads.map Pc.work := by
    rw [List.map_map]
    exact List.map_congr_left fun p _ => e.work_wake p
  have hbefore := ((List.getElem_cons_eraseIdx_perm hlength).symm.map Pc.work).sum_nat
  have hlength' : t < (s.threads.map e.wake).length := by
    rwa [List.length_map]
  have hafter := ((List.set_perm_cons_eraseIdx hlength' p').map Pc.work).sum_nat
  rw [List.map_cons, List.sum_cons] at hbefore hafter
  rw [← List.eraseIdx_map, hwake, List.eraseIdx_map] at hafter
  simp only [State.work, List.map_append, List.sum_append_nat]
  omega

/-- An event by which a thread takes up something new. -/
def Event.isRequest : Event → Bool
  | made _ | asked _ _ => true
  | _ => false

namespace State.LeavesTargets

/-- Where no thread takes up something new, all targets are still left to their continuations. -/
theorem step
    (hleaves : s.LeavesTargets log) (h : Step C s t e s') (he : e.isRequest = false) :
    s'.LeavesTargets ((t, e) :: log) := by
  intro i d x hmem
  obtain ⟨made, hperm, -, hmade⟩ := h.targets log
  have hnone : made = [] := by
    rcases hmade with hnone | ⟨-, rfl, -⟩
    · exact hnone
    · cases he
  subst hnone
  rcases List.mem_cons.mp hmem with heq | hmem
  · cases heq
    cases he
  · exact fun hd => hleaves i d x hmem (hperm.mem_iff.mp hd)

end State.LeavesTargets

namespace Run

/-- Nobody is about to settle what is not there. -/
theorem lt_of_settling
    {d : Nat} {x : Settlement} (h : Run (.ofFunction message f) log s)
    (hmem : .settling d x ∈ s.threads) :
    d < s.futures.length := by
  rcases h.origin (.inl hmem) with ⟨i, hasked⟩ | ⟨k, y, hworked, rfl, -⟩
  · exact h.lt_of_asked hasked
  · obtain ⟨i, u, hran⟩ := h.ran_of_worked hworked
    exact h.fresh.2 _ (h.mem_targets_of_ran hran)

/-- A call is made on a future that is there. -/
theorem lt_of_chaining
    {u : Nat} {k : Continuation} (h : Run C log s) (hmem : .chaining u k ∈ s.threads) :
    u < s.futures.length := by
  refine Nat.lt_trans (h.older (.inr hmem)) (h.fresh.2 _ (List.mem_append_right _ ?_))
  exact List.mem_flatMap.mpr ⟨_, hmem, List.mem_cons_self⟩

/-- A busy thread can go on, whatever the others do, and takes up nothing new. -/
theorem exists_step
    (h : Run (.ofFunction message f) log s) (ht : s.threads[t]? = some p)
    (hbusy : p.isBusy = true) :
    ∃ e s', Step (.ofFunction message f) s t e s' ∧ e.isRequest = false ∧ s'.work < s.work := by
  have go {e : Event} {fs' : Futures} {p' : Pc} {new : List Pc}
      (hmove : Move (.ofFunction message f) s.futures p e fs' p' new) (he : e.isRequest = false)
      (hlt : p'.work + (new.map Pc.work).sum + fs'.work < p.work + s.futures.work) :
      ∃ e s', Step (.ofFunction message f) s t e s' ∧ e.isRequest = false ∧ s'.work < s.work := by
    obtain ⟨s', hstep, hless⟩ := Step.exists_of_work_lt ht hmove hlt
    exact ⟨e, s', hstep, he, hless⟩
  have hmem := List.mem_of_getElem? ht
  cases p with
  | idle | waiting =>
      cases hbusy
  | settling d x =>
      cases hsettle : (s.futures.at d).settle? x with
      | none =>
          refine go (.late hsettle) rfl ?_
          simp [Pc.work]
      | some r =>
          obtain ⟨g, ks⟩ := r
          have hlt := h.lt_of_settling hmem
          refine go (.settle hlt hsettle) rfl ?_
          obtain ⟨-, -, rfl, rfl⟩ := Future.settle?_eq_some_iff.mp hsettle
          have hwork := Futures.work_set
            (f := { s.futures.at d with settlement := x, waiting := [] }) hlt
          simp only [List.length_nil] at hwork
          simp only [Pc.work, List.map_nil, List.sum_nil]
          omega
  | handing i x ks =>
      cases ks with
      | nil =>
          refine go .handed rfl ?_
          simp [Pc.work]
      | cons k ks =>
          refine go .hand rfl ?_
          simp only [Pc.work, List.map_cons, List.map_nil, List.sum_cons, List.sum_nil,
            List.length_cons]
          omega
  | chaining u k =>
      have hlt := h.lt_of_chaining hmem
      cases hregister : (s.futures.at u).onSettle k with
      | mk g late =>
          cases late with
          | none =>
              refine go (.register hlt hregister) rfl ?_
              obtain ⟨-, rfl⟩ := Future.onSettle_eq_none_iff.mp hregister
              have hwork := Futures.work_set
                (f := { s.futures.at u with waiting := (s.futures.at u).waiting ++ [k] }) hlt
              simp only [List.length_append, List.length_singleton] at hwork
              simp only [Pc.work, List.map_nil, List.sum_nil]
              omega
          | some x =>
              refine go (.registerLate hregister) rfl ?_
              simp [Pc.work]
  | holding i k x =>
      refine go .run rfl ?_
      simp [Pc.work]
  | working k x =>
      cases hargs : k.step.arguments? message x with
      | none =>
          refine go (.pass hargs) rfl ?_
          simp [Pc.work]
      | some args =>
          refine go (.call hargs rfl) rfl ?_
          simp [Pc.work]

/-- All threads can come to an end of what they are at. -/
theorem exists_quiet
    (h : Run (.ofFunction message f) log s) (hleaves : s.LeavesTargets log) :
    ∃ later s', Run (.ofFunction message f) (later ++ log) s' ∧ s'.Quiet ∧
      s'.LeavesTargets (later ++ log) ∧ ∀ y ∈ later, y.2.isRequest = false := by
  generalize hwork : s.work = n
  induction n using Nat.strong_induction_on generalizing log s with
  | _ n ih =>
      by_cases hquiet : s.Quiet
      · exact ⟨[], s, h, hquiet, hleaves, by simp⟩
      · obtain ⟨p, hmem, hbusy⟩ : ∃ p ∈ s.threads, p.isBusy = true := by
          simpa [State.Quiet] using hquiet
        obtain ⟨t, ht⟩ := List.getElem?_of_mem hmem
        obtain ⟨e, s₁, hstep, he, hless⟩ := h.exists_step ht hbusy
        obtain ⟨later, s', hrun, hquiet', hleaves', hlater⟩ :=
          ih s₁.work (hwork ▸ hless) (h.step hstep) (hleaves.step hstep he) rfl
        refine ⟨later ++ [(t, e)], s', by simpa using hrun, hquiet', by simpa using hleaves', ?_⟩
        intro y hy
        rcases List.mem_append.mp hy with hy | hy
        · exact hlater y hy
        · cases List.mem_singleton.mp hy
          exact he

/-! ### The way to a target -/

/-- Every future is a root or comes of one by calls. -/
theorem rooted
    (h : Run C log s) (d : Nat) :
    ∃ r calls, log.Path r calls d ∧ r ∉ log.targets := by
  induction d using Nat.strong_induction_on with
  | _ d ih =>
      by_cases hmem : d ∈ log.targets
      · obtain ⟨i, u, k, hk, rfl⟩ := Log.exists_registered hmem
        obtain ⟨r, calls, hpath, hroot⟩ := ih u (h.older (.inl ⟨i, hk⟩))
        exact ⟨r, _, hpath.call hk, hroot⟩
      · exact ⟨d, [], .root, hmem⟩

/-- What a future settles with is what the calls make of the settlement of the root. -/
theorem settlement_of_path
    {r d : Nat} {calls : List (ChainStep × Value)} (h : Run (.ofFunction message f) log s)
    (hleaves : s.LeavesTargets log) (hpath : log.Path r calls d)
    (hdone : (s.future d).isDone = true) :
    (s.future r).isDone = true ∧
      (s.future d).settlement = calls.foldl (derive message f) (s.future r).settlement := by
  induction hpath with
  | root =>
      exact ⟨hdone, rfl⟩
  | @call calls t u k hpath hk ih =>
      obtain ⟨hu, heq⟩ := h.derived hleaves hk hdone
      obtain ⟨hr, hcalls⟩ := ih hu
      refine ⟨hr, ?_⟩
      rw [heq, hcalls, List.foldl_append]
      rfl

/-- Once everything has run, what comes of a settled root has settled. -/
theorem isDone_of_path
    {r d : Nat} {calls : List (ChainStep × Value)} (h : Run (.ofFunction message f) log s)
    (hquiet : s.Quiet) (hpath : log.Path r calls d) (hdone : (s.future r).isDone = true) :
    (s.future d).isDone = true := by
  induction hpath with
  | root =>
      exact hdone
  | call hpath hk ih =>
      exact h.passedOn hquiet hk ih

end Run

/-! ### The law -/

/-- What becomes of chains of futures does not depend on who comes first. -/
structure Confluent (message : Exception → String) (f : Value → List Value → Except Signal Value)
    (log : Log) (s : State) : Prop where
  /-- Every future is a root or comes of one by calls. -/
  rooted : ∀ d, ∃ r calls, log.Path r calls d ∧ r ∉ log.targets
  /-- What has settled has the settlement that the calls make of that of the root. -/
  settlement : ∀ r calls d, log.Path r calls d → (s.future d).isDone = true →
    (s.future r).isDone = true ∧
      (s.future d).settlement = calls.foldl (derive message f) (s.future r).settlement
  /-- All that is under way can come to an end, with nothing new. -/
  ends : ∃ later s', Run (.ofFunction message f) (later ++ log) s' ∧ s'.Quiet ∧
    s'.LeavesTargets (later ++ log) ∧ ∀ y ∈ later, y.2.isRequest = false
  /-- Once everything has run, what comes of a settled root has settled. -/
  settles : s.Quiet → ∀ r calls d, log.Path r calls d → (s.future r).isDone = true →
    (s.future d).isDone = true
  /-- Two runs that have come to their end agree on what comes of equal roots by equal calls. -/
  agrees : s.Quiet → ∀ (log' : Log) (s' : State), Run (.ofFunction message f) log' s' →
    s'.LeavesTargets log' → s'.Quiet → ∀ r r' calls d d', log.Path r calls d →
      log'.Path r' calls d' → (s.future r).settlement = (s'.future r').settlement →
        (s.future d).settlement = (s'.future d').settlement
  /-- A callback is called at most once for a target. -/
  once : log.calledFor.Nodup
  /-- It is called after the future has settled, if its case applies, with what the case gives. -/
  called : ∀ t k x args, (t, .called k x args) ∈ log →
    k.step.arguments? message x = some args ∧
      ∃ i u, (i, .registered u k) ∈ log ∧ (s.future u).isDone = true ∧ (s.future u).settlement = x
  /-- Once everything has run, all callbacks whose case applies have been called. -/
  calls : s.Quiet → ∀ i u k args, (i, .registered u k) ∈ log → (s.future u).isDone = true →
    k.step.arguments? message (s.future u).settlement = some args →
      ∃ t, (t, .called k (s.future u).settlement args) ∈ log

/-- Chains of futures are confluent, for all callbacks that are functions of their arguments and all
orders of steps, as long as targets are left to their continuations. -/
theorem Run.confluent
    (h : Run (.ofFunction message f) log s) (hleaves : s.LeavesTargets log) :
    Confluent message f log s where
  rooted := h.rooted
  settlement := fun _ _ _ hpath hdone => h.settlement_of_path hleaves hpath hdone
  ends := h.exists_quiet hleaves
  settles := fun hquiet _ _ _ hpath hdone => h.isDone_of_path hquiet hpath hdone
  agrees := fun hquiet log' s' h' hleaves' hquiet' r r' calls d d' hpath hpath' heq => by
    have hroot : (s.future r).isDone = (s'.future r').isDone := by
      rw [Future.isDone, heq, Future.isDone]
    cases hdone : (s.future r).isDone with
    | true =>
        have hd := h.isDone_of_path hquiet hpath hdone
        have hd' := h'.isDone_of_path hquiet' hpath' (hroot.symm.trans hdone)
        rw [(h.settlement_of_path hleaves hpath hd).2, heq,
          (h'.settlement_of_path hleaves' hpath' hd').2]
    | false =>
        have hd : (s.future d).isDone = false := Bool.eq_false_iff.mpr fun hd => by
          cases hdone.symm.trans (h.settlement_of_path hleaves hpath hd).1
        have hd' : (s'.future d').isDone = false := Bool.eq_false_iff.mpr fun hd => by
          cases (hroot.symm.trans hdone).symm.trans (h'.settlement_of_path hleaves' hpath' hd).1
        rw [Future.isDone_eq_false_iff.mp hd, Future.isDone_eq_false_iff.mp hd']
  once := h.nodup_calledFor
  called := fun t k x args hmem => by
    refine ⟨h.arguments?_of_called hmem, ?_⟩
    obtain ⟨i, u, hran⟩ := h.ran_of_worked (List.mem_filterMap.mpr ⟨_, hmem, rfl⟩)
    obtain ⟨j, hk⟩ := h.registered_of_ran hran
    exact ⟨j, u, hk, h.settlement_of_ran hran⟩
  calls := fun hquiet _ _ _ _ hk hdone hargs => h.exists_called (h.mem_worked hquiet hk hdone) hargs

/-- A call of `then` whose callback throws, and one of `catch` on what it gives: the second is
registered after the root has settled. -/
theorem confluent_thenCatch :
    let f : Value → List Value → Except Signal Value := fun _ args =>
      match args with
      | [.str m] => .ok (.str m)
      | _ => .error (.thrown ⟨.nil, none⟩)
    ∃ (log : Log) (s : State), Run (.ofFunction (fun _ => "lost") f) log s ∧ s.Quiet ∧
      s.LeavesTargets log ∧ Confluent (fun _ => "lost") f log s ∧
        (s.future 2).settlement = .fulfilled (.str "lost") := by
  intro f
  let g := Callbacks.ofFunction (fun _ => "lost") f
  let lost : Exception := ⟨.nil, none⟩
  let k₁ : Continuation := ⟨.onFulfilled, .nil, 1⟩
  let k₂ : Continuation := ⟨.onRejected, .nil, 2⟩
  let root : Future Continuation := ⟨.completable, .fulfilled .nil, []⟩
  -- thread 0 makes the root, calls `then` and settles the root
  have h₁ := (Run.start (C := g)).step (.move (t := 0) rfl (.make .completable))
  have h₂ : Run g _ ⟨[.ofKind .completable, .ofKind .promise], [.chaining 0 k₁]⟩ :=
    h₁.step (.move (t := 0) rfl (.chain .onFulfilled .nil (by decide)))
  have h₃ := h₂.step (.move (t := 0) rfl (.register (by decide) rfl))
  have h₄ : Run g ((0, .asked 0 (.fulfilled .nil)) :: _) _ :=
    h₃.step (.move (t := 0) rfl (.ask (.fulfilled .nil) (by decide)))
  have h₅ := h₄.step (.move (t := 0) rfl (.settle (by decide) rfl))
  have h₆ := h₅.step (.move (t := 0) rfl .hand)
  have h₇ : Run g _ ⟨[root, .ofKind .promise], [.idle, .working k₁ (.fulfilled .nil)]⟩ :=
    h₆.step (.move (t := 0) rfl .handed)
  -- thread 1 calls the callback, while thread 0 calls `catch`
  have h₈ : Run g ((1, .called k₁ (.fulfilled .nil) [.nil]) :: _)
      ⟨[root, .ofKind .promise], [.idle, .settling 1 (.rejected lost)]⟩ :=
    h₇.step (.move rfl (.call (r := .error (.thrown lost)) rfl rfl))
  have h₉ : Run g _
      ⟨[root, .ofKind .promise, .ofKind .promise], [.chaining 1 k₂, .settling 1 (.rejected lost)]⟩ :=
    h₈.step (.move (t := 0) rfl (.chain .onRejected .nil (by decide)))
  have h₁₀ : Run g ((1, .settled 1 (.rejected lost)) :: _) ⟨[root, ⟨.promise, .rejected lost, []⟩, .ofKind .promise],
      [.chaining 1 k₂, .handing 1 (.rejected lost) []]⟩ :=
    h₉.step (.move rfl (.settle (by decide) rfl))
  have h₁₁ := h₁₀.step (.move (t := 0) rfl (.registerLate rfl))
  have h₁₂ := h₁₁.step (.move (t := 1) rfl .handed)
  have h₁₃ : Run g _ ⟨[root, ⟨.promise, .rejected lost, []⟩, .ofKind .promise],
      [.idle, .idle, .working k₂ (.rejected lost)]⟩ :=
    h₁₂.step (.move (t := 0) rfl .run)
  -- thread 2 runs the continuation that came too late to be stored
  have h₁₄ : Run g ((2, .called k₂ (.rejected lost) [.str "lost"]) :: _)
      ⟨[root, ⟨.promise, .rejected lost, []⟩, .ofKind .promise],
        [.idle, .idle, .settling 2 (.fulfilled (.str "lost"))]⟩ :=
    h₁₃.step (.move rfl (.call (r := .ok (.str "lost")) rfl rfl))
  have h₁₅ := h₁₄.step (.move (t := 2) rfl (.settle (by decide) rfl))
  let log : Log :=
    [(2, .answered 2 (.fulfilled (.str "lost")) true), (2, .settled 2 (.fulfilled (.str "lost"))),
      (2, .called k₂ (.rejected lost) [.str "lost"]), (0, .ran 1 k₂ (.rejected lost)),
      (1, .answered 1 (.rejected lost) true), (0, .registered 1 k₂), (1, .settled 1 (.rejected lost)),
      (0, .made 2), (1, .called k₁ (.fulfilled .nil) [.nil]), (0, .answered 0 (.fulfilled .nil) true),
      (0, .ran 0 k₁ (.fulfilled .nil)), (0, .settled 0 (.fulfilled .nil)),
      (0, .asked 0 (.fulfilled .nil)), (0, .registered 0 k₁), (0, .made 1), (0, .made 0)]
  have h₁₆ : Run g log
      ⟨[root, ⟨.promise, .rejected lost, []⟩, ⟨.promise, .fulfilled (.str "lost"), []⟩],
        [.idle, .idle, .idle]⟩ :=
    h₁₅.step (.move (t := 2) rfl .handed)
  have hquiet : ∀ p ∈ [Pc.idle, .idle, .idle], p.isBusy = false := by
    decide
  have hleaves (fs : Futures) : State.LeavesTargets ⟨fs, [.idle, .idle, .idle]⟩ log := by
    intro t d x hmem
    have hd : d = 0 := by
      simp only [log, List.mem_cons, Prod.mk.injEq, reduceCtorEq, and_false, false_or,
        Event.asked.injEq, List.not_mem_nil, or_false] at hmem
      exact hmem.2.1
    subst hd
    show 0 ∉ [2, 1]
    decide
  exact ⟨_, _, h₁₆, hquiet, hleaves _, h₁₆.confluent (hleaves _), rfl⟩

end Settling
end ScriptEngine
