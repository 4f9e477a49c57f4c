import ScriptEngine.Proofs.Evaluation.Language
import ScriptEngine.Session

/-!
# Threads that follow a protocol

The scheduler lets one thread go on after another.  If each of them follows a protocol, then what
they hold together is kept in every round and in every turn of the main thread.

**Sharing.** A `Sharing` says what several threads may hold together, and why a stretch of one of
them leaves the others what they hold.  The order of the threads does not matter.

**Waiting.** A thread that waits is `Suspended`: as long as the heap only changes along the protocol,
it will go on by the protocol.  The threads that wait are a `Crew`.

**The main thread.** `Steady` describes a moment of a run: the main thread has come to an end or
waits, and so do the others.  Every moment of a run is steady if the first one is, so a program that
begins steadily ends so.
-/

namespace ScriptEngine

/-- How several threads that follow a protocol share the heap. -/
structure Sharing {κ : Type} (P : Protocol κ) (limit : Nat) where
  /-- What the threads hold together.  The jobs are those that have been taken from the heap. -/
  inv : List κ → List Job → Heap → Prop
  /-- What the thread of a job holds when it begins. -/
  begun : Job → κ
  /-- What a thread may hold when it has ended. -/
  done : κ → Prop
  holds : ∀ {k ks js h}, inv (k :: ks) js h → P.inv k h
  perm : ∀ {ks ks' js h}, inv ks js h → ks.Perm ks' → inv ks' js h
  stretch : ∀ {k k' ks js h h'}, inv (k :: ks) js h → P.moves k h k' h' → inv (k' :: ks) js h'
  leave : ∀ {k ks js h}, inv (k :: ks) js h → done k → inv ks js h
  take : ∀ {ks h}, inv ks [] h → P.along h { h with jobs := [] } ∧ inv ks h.jobs { h with jobs := [] }
  clock : ∀ {k ks h}, inv (k :: ks) [] h → ∀ t,
    P.along h { h with clock := t } ∧ inv (k :: ks) [] { h with clock := t }
  begin : ∀ {j ks js h}, inv ks (j :: js) h → inv (begun j :: ks) js h
  work : ∀ {j ks js h}, inv ks (j :: js) h →
    P.Follows (fun _ k => done k) (Eval.runJob Eval.engine j (.ofLimit limit) h) (begun j) h

variable {κ : Type} {P : Protocol κ} {limit : Nat}

/-! ### Threads that wait -/

/-- A thread that waits will go on by the protocol. -/
def Suspended {α : Type} (P : Protocol κ) (Q : Protocol.Goal κ α) (k : κ) (h : Heap)
    (resume : Heap → Res α) : Prop :=
  ∀ h', P.along h h' → P.inv k h' → P.Follows Q (resume h') k h'

theorem Suspended.along
    {α : Type} {Q : Protocol.Goal κ α} {k : κ} {h h' : Heap} {resume : Heap → Res α}
    (hsuspended : Suspended P Q k h resume) (halong : P.along h h') :
    Suspended P Q k h' resume := by
  intro h'' halong' hk
  exact hsuspended h'' (P.along_trans halong halong') hk

/-- Threads that wait, with what they hold. -/
inductive Crew (S : Sharing P limit) (h : Heap) : List Waiting → List κ → Prop
  | nil : Crew S h [] []
  | cons {w : Waiting} {k : κ} {ws : List Waiting} {ks : List κ} :
      Suspended P (fun _ k => S.done k) k h w.resume → Crew S h ws ks →
      Crew S h (w :: ws) (k :: ks)

namespace Crew

variable {S : Sharing P limit} {h h' : Heap} {ws ws' kept : List Waiting}
variable {ks ks' rest : List κ} {k : κ} {js : List Job}

theorem along
    (hcrew : Crew S h ws ks) (halong : P.along h h') :
    Crew S h' ws ks := by
  induction hcrew with
  | nil =>
      exact .nil
  | cons hw _ ih =>
      exact .cons (hw.along halong) ih

/-- One more thread begins to wait. -/
theorem snoc
    {w : Waiting}
    (hcrew : Crew S h ws ks) (hw : Suspended P (fun _ k => S.done k) k h w.resume) :
    Crew S h (ws ++ [w]) (ks ++ [k]) := by
  induction hcrew with
  | nil =>
      exact .cons hw .nil
  | cons hw' _ ih =>
      exact .cons hw' ih

/-- One thread goes on as far as it can. -/
theorem enqueue
    {r : Res Unit}
    (hcrew : Crew S h ws ks)
    (hs : S.inv (k :: (ks ++ rest)) js h)
    (hr : P.Follows (fun _ k => S.done k) r k h)
    (hrun : Eval.enqueue ws r = some (ws', h')) :
    P.along h h' ∧ ∃ ks', Crew S h' ws' ks' ∧ S.inv (ks' ++ rest) js h' := by
  cases r with
  | value a h₁ =>
      cases hrun
      obtain ⟨k', hmove, hdone⟩ := hr
      have halong := P.moves_along hmove
      exact ⟨halong, ks, hcrew.along halong, S.leave (S.stretch hs hmove) hdone⟩
  | raise s h₁ =>
      cases hrun
      obtain ⟨k', hmove, hdone⟩ := hr
      have halong := P.moves_along hmove
      exact ⟨halong, ks, hcrew.along halong, S.leave (S.stretch hs hmove) hdone⟩
  | blocked b h₁ resume =>
      cases hrun
      obtain ⟨k', hmove, hrest⟩ := hr
      have halong := P.moves_along hmove
      refine ⟨halong, ks ++ [k'], (hcrew.along halong).snoc hrest, ?_⟩
      refine S.perm (S.stretch hs hmove) ?_
      rw [List.append_assoc]
      exact List.perm_middle.symm
  | outOfFuel =>
      cases hrun

/-- The threads of jobs begin one after another. -/
theorem startJobs
    (hcrew : Crew S h ws ks)
    (hs : S.inv (ks ++ rest) js h)
    (hrun : Eval.startJobs Eval.engine limit js ws h = some (ws', h')) :
    P.along h h' ∧ ∃ ks', Crew S h' ws' ks' ∧ S.inv (ks' ++ rest) [] h' := by
  induction js generalizing ws ks h with
  | nil =>
      cases hrun
      exact ⟨P.along_refl _, ks, hcrew, hs⟩
  | cons j js ih =>
      simp only [Eval.startJobs] at hrun
      cases hstep : Eval.enqueue ws (Eval.runJob Eval.engine j (.ofLimit limit) h) with
      | none =>
          rw [hstep] at hrun
          cases hrun
      | some next =>
          rw [hstep] at hrun
          obtain ⟨halong, ks₁, hcrew₁, hs₁⟩ := hcrew.enqueue (S.begin hs) (S.work hs) hstep
          obtain ⟨halong', hrest⟩ := ih hcrew₁ hs₁ hrun
          exact ⟨P.along_trans halong halong', hrest⟩

/-- The threads that can go on do so one after another. -/
theorem resumeReady
    {ks₀ : List κ}
    (hcrew : Crew S h ws ks)
    (hkept : Crew S h kept ks₀)
    (hs : S.inv (ks ++ (ks₀ ++ rest)) js h)
    (hrun : Eval.resumeReady ws kept h = some (ws', h')) :
    P.along h h' ∧ ∃ ks', Crew S h' ws' ks' ∧ S.inv (ks' ++ rest) js h' := by
  induction ws generalizing ks kept ks₀ h with
  | nil =>
      cases hcrew
      cases hrun
      exact ⟨P.along_refl _, ks₀, hkept, hs⟩
  | cons w ws ih =>
      cases hcrew with
      | @cons _ k _ ks hw hcrew =>
          simp only [Eval.resumeReady] at hrun
          split at hrun
          · have hfirst : S.inv (k :: (ks₀ ++ (ks ++ rest))) js h :=
              S.perm hs (.cons k (List.perm_append_comm_assoc _ _ _))
            have hgo := hw h (P.along_refl h) (S.holds hfirst)
            cases hstep : Eval.enqueue kept (w.resume h) with
            | none =>
                rw [hstep] at hrun
                cases hrun
            | some next =>
                rw [hstep] at hrun
                obtain ⟨halong, ks₁, hkept₁, hs₁⟩ := hkept.enqueue hfirst hgo hstep
                obtain ⟨halong', hrest⟩ := ih (hcrew.along halong) hkept₁
                  (S.perm hs₁ (List.perm_append_comm_assoc _ _ _)) hrun
                exact ⟨P.along_trans halong halong', hrest⟩
          · have hperm : (k :: ks ++ (ks₀ ++ rest)).Perm (ks ++ (ks₀ ++ [k] ++ rest)) := by
              have hmiddle : (ks ++ ks₀ ++ k :: rest).Perm (k :: (ks ++ ks₀ ++ rest)) :=
                List.perm_middle
              simpa [List.append_assoc] using hmiddle.symm
            exact ih hcrew (hkept.snoc hw) (S.perm hs hperm) hrun

/-- A round of the threads other than the main one. -/
theorem round
    (hcrew : Crew S h ws ks)
    (hs : S.inv (ks ++ rest) [] h)
    (hrun : Eval.round Eval.engine limit ws h = some (ws', h')) :
    P.along h h' ∧ ∃ ks', Crew S h' ws' ks' ∧ S.inv (ks' ++ rest) [] h' := by
  unfold Eval.round at hrun
  obtain ⟨halong₀, hs₀⟩ := S.take hs
  cases hstart : Eval.startJobs Eval.engine limit h.jobs ws { h with jobs := [] } with
  | none =>
      rw [hstart] at hrun
      cases hrun
  | some next =>
      rw [hstart] at hrun
      obtain ⟨halong₁, ks₁, hcrew₁, hs₁⟩ := (hcrew.along halong₀).startJobs hs₀ hstart
      obtain ⟨halong₂, hrest⟩ := hcrew₁.resumeReady .nil hs₁ hrun
      exact ⟨P.along_trans (P.along_trans halong₀ halong₁) halong₂, hrest⟩

end Crew

/-! ### The main thread -/

/-- Where the main thread has come to an end or waits: the others wait, and all share the heap.
Something may be held for good by threads that will never go on. -/
def Steady {α : Type} (S : Sharing P limit) (Q : Protocol.Goal κ α) (r : Res α)
    (ws : List Waiting) : Prop :=
  ∀ h, r.heap? = some h → ∃ k ks lost,
    Crew S h ws ks ∧ S.inv (k :: (ks ++ lost)) [] h ∧
      match r with
      | .value a _ => Q (.ok a) k
      | .raise s _ => Q (.error s) k
      | .blocked _ _ resume => Suspended P Q k h resume
      | .outOfFuel => True

/-- The moments of a run: one turn of the main thread after another. -/
inductive Eval.Reaches {α : Type} (limit : Nat) :
    Res α → List Waiting → Res α → List Waiting → Prop
  | refl {r : Res α} {ws : List Waiting} : Reaches limit r ws r ws
  | turn {r r' : Res α} {ws ws₁ ws₂ : List Waiting} {b : Blocker} {h : Heap}
      {resume : Heap → Res α} :
      Reaches limit r ws (.blocked b h resume) ws₁ →
      Eval.turn engine limit b h resume ws₁ = some (r', ws₂) →
      Reaches limit r ws r' ws₂

/-- Nothing follows an evaluation that has run out of fuel. -/
theorem Eval.Reaches.eq_of_heap?_eq_none
    {α : Type} {limit : Nat} {r r' : Res α} {ws ws' : List Waiting}
    (hreach : Reaches limit r ws r' ws') (hr : r.heap? = none) : r' = r := by
  induction hreach with
  | refl =>
      rfl
  | turn _ _ ih =>
      rw [← ih] at hr
      cases hr

namespace Steady

variable {S : Sharing P limit} {α : Type} {Q : Protocol.Goal κ α} {r r' : Res α}
variable {ws ws' : List Waiting} {h h' : Heap}

/-- The main thread has come as far as it can. -/
theorem of_follows
    {k : κ} {ks lost : List κ}
    (hcrew : Crew S h ws ks)
    (hs : S.inv (k :: (ks ++ lost)) [] h)
    (hr : P.Follows Q r k h) :
    Steady S Q r ws := by
  intro h' hh'
  cases r with
  | value a h₁ =>
      cases hh'
      obtain ⟨k', hmove, hq⟩ := hr
      exact ⟨k', ks, lost, hcrew.along (P.moves_along hmove), S.stretch hs hmove, hq⟩
  | raise s h₁ =>
      cases hh'
      obtain ⟨k', hmove, hq⟩ := hr
      exact ⟨k', ks, lost, hcrew.along (P.moves_along hmove), S.stretch hs hmove, hq⟩
  | blocked b h₁ resume =>
      cases hh'
      obtain ⟨k', hmove, hrest⟩ := hr
      exact ⟨k', ks, lost, hcrew.along (P.moves_along hmove), S.stretch hs hmove, hrest⟩
  | outOfFuel =>
      cases hh'

/-- The clock is set before a round, if it is. -/
theorem advance
    {bs : List Blocker}
    (hrun : Eval.advance? bs h = some h') :
    ∃ t, h' = { h with clock := t } := by
  unfold Eval.advance? at hrun
  split at hrun
  · cases hrun
    exact ⟨h.clock, rfl⟩
  · split at hrun
    · cases hrun
      exact ⟨_, rfl⟩
    · obtain ⟨t, -, rfl⟩ := Option.map_eq_some_iff.mp hrun
      exact ⟨_, rfl⟩

/-- What a turn of the main thread comes to: the others go on, and then it does if it can. -/
theorem turn_cases
    {b : Blocker} {resume : Heap → Res α}
    (hsteady : Steady S Q (.blocked b h resume) ws)
    (hrun : Eval.turn Eval.engine limit b h resume ws = some (r', ws')) :
    ∃ h₂ k ks lost, P.along h h₂ ∧ Crew S h₂ ws' ks ∧ S.inv (k :: (ks ++ lost)) [] h₂ ∧
      Suspended P Q k h₂ resume ∧
      r' = if b.isReady h₂ then resume h₂ else .blocked b h₂ resume := by
  obtain ⟨k, ks, lost, hcrew, hs, hmain⟩ := hsteady h rfl
  unfold Eval.turn at hrun
  cases hclock : Eval.advance? (b :: ws.map (·.blocker)) h with
  | none =>
      simp [hclock] at hrun
  | some h₁ =>
      obtain ⟨t, rfl⟩ := advance hclock
      obtain ⟨halong₁, hs₁⟩ := S.clock hs t
      cases hround : Eval.round Eval.engine limit ws { h with clock := t } with
      | none =>
          simp [hclock, hround] at hrun
      | some next =>
          obtain ⟨ws₂, h₂⟩ := next
          simp only [hclock, hround, Option.some.injEq, Prod.mk.injEq] at hrun
          obtain ⟨rfl, rfl⟩ := hrun
          obtain ⟨halong₂, ks₂, hcrew₂, hs₂⟩ :=
            (hcrew.along halong₁).round (S.perm hs₁ List.perm_middle.symm) hround
          have halong := P.along_trans halong₁ halong₂
          have hs₃ : S.inv (k :: (ks₂ ++ lost)) [] h₂ := S.perm hs₂ List.perm_middle
          exact ⟨h₂, k, ks₂, lost, halong, hcrew₂, hs₃, hmain.along halong, rfl⟩

/-- One turn of the main thread. -/
theorem turn
    {b : Blocker} {resume : Heap → Res α}
    (hsteady : Steady S Q (.blocked b h resume) ws)
    (hrun : Eval.turn Eval.engine limit b h resume ws = some (r', ws')) :
    Steady S Q r' ws' := by
  obtain ⟨h₂, k, ks, lost, -, hcrew, hs, hmain, rfl⟩ := hsteady.turn_cases hrun
  split
  · exact of_follows hcrew hs (hmain h₂ (P.along_refl h₂) (S.holds hs))
  · intro h' hh'
    cases hh'
    exact ⟨k, ks, lost, hcrew, hs, hmain⟩

/-- In a turn the heap changes along the protocol. -/
theorem turn_along
    {b : Blocker} {resume : Heap → Res α}
    (hsteady : Steady S Q (.blocked b h resume) ws)
    (hrun : Eval.turn Eval.engine limit b h resume ws = some (r', ws'))
    (hh' : r'.heap? = some h') :
    P.along h h' := by
  obtain ⟨h₂, k, ks, lost, halong, -, hs, hmain, rfl⟩ := hsteady.turn_cases hrun
  split at hh'
  · have hrest := hmain h₂ (P.along_refl h₂) (S.holds hs)
    exact P.along_trans halong (hrest.along hh')
  · cases hh'
    exact halong

/-- Every moment of a run is steady. -/
theorem reaches
    (hsteady : Steady S Q r ws) (hreaches : Eval.Reaches limit r ws r' ws') :
    Steady S Q r' ws' := by
  induction hreaches with
  | refl =>
      exact hsteady
  | turn _ hturn ih =>
      exact (ih hsteady).turn hturn

/-- In the course of a run the heap changes along the protocol. -/
theorem reaches_along
    (hsteady : Steady S Q r ws) (hreaches : Eval.Reaches limit r ws r' ws')
    (hh : r.heap? = some h) (hh' : r'.heap? = some h') :
    P.along h h' := by
  induction hreaches generalizing h' with
  | refl =>
      rw [hh] at hh'
      cases hh'
      exact P.along_refl h
  | turn hbefore hturn ih =>
      exact P.along_trans (ih hsteady rfl) ((hsteady.reaches hbefore).turn_along hturn hh')

/-- The end of a run is one of its moments. -/
theorem drive
    {fuel : Nat} {o : Except Signal α}
    (hsteady : Steady S Q r ws)
    (hrun : Eval.drive Eval.engine limit fuel r ws = some (o, ws', h)) :
    ∃ k ks lost, Crew S h ws' ks ∧ S.inv (k :: (ks ++ lost)) [] h ∧ Q o k := by
  fun_induction Eval.drive Eval.engine limit fuel r ws with
  | case1 fuel a h₁ ws =>
      cases hrun
      exact hsteady h rfl
  | case2 fuel s h₁ ws =>
      cases hrun
      exact hsteady h rfl
  | case3 fuel ws =>
      cases hrun
  | case4 b h₁ resume ws =>
      cases hrun
  | case5 fuel b h₁ resume ws hturn =>
      cases hrun
  | case6 fuel b h₁ resume ws r ws₁ hturn ih =>
      exact ih (hsteady.turn hturn) hrun

end Steady

/-! ### Programs -/

/-- A program runs the statements of its body and leaves its frame. -/
theorem Composed.runIn
    (env : Env) (body : List Stmt) :
    Composed Eval.engine (.frame env) (Session.runIn env body) := by
  unfold Session.runIn
  exact .bind (.leaveFrame _ _) fun flow => .resultOf flow

/-- A program does not end, or its main thread is run to the end. -/
theorem Session.runProgram_cases
    (s : Session) (p : Program) :
    s.runProgram p = (.error .endless, s) ∨ ∃ outcome ws h,
      Eval.drive Eval.engine s.limit Eval.fullFuel
        (runIn s.env p.statements (.ofLimit s.limit) s.heap) s.waiting = some (outcome, ws, h) ∧
      s.runProgram p = (outcome.mapError (.ofSignal h), { s with heap := h, waiting := ws }) := by
  -- the engine is put away first: what it computes is not to be unfolded
  unfold Session.runProgram
  dsimp only
  generalize runIn s.env p.statements (.ofLimit s.limit) s.heap = first
  generalize Eval.fullFuel = fuel
  cases Eval.drive Eval.engine s.limit fuel first s.waiting with
  | none =>
      exact .inl rfl
  | some final =>
      obtain ⟨outcome, ws, h⟩ := final
      refine .inr ⟨outcome, ws, h, rfl, ?_⟩
      cases outcome with
      | ok v =>
          rfl
      | error signal =>
          rfl

/-- A program that begins steadily does not end, or what its threads hold is kept to the end. -/
theorem Session.runProgram_of_steady
    {s : Session} {p : Program} {S : Sharing P s.limit} {Q : Protocol.Goal κ Value}
    (hsteady : Steady S Q (runIn s.env p.statements (.ofLimit s.limit) s.heap) s.waiting) :
    s.runProgram p = (.error .endless, s) ∨ ∃ outcome ws h k ks lost,
      s.runProgram p = (outcome.mapError (.ofSignal h), { s with heap := h, waiting := ws }) ∧
        Crew S h ws ks ∧ S.inv (k :: (ks ++ lost)) [] h ∧ Q outcome k := by
  rcases s.runProgram_cases p with hendless | ⟨outcome, ws, h, hdrive, hresult⟩
  · exact .inl hendless
  · obtain ⟨k, ks, lost, hcrew, hinv, hgoal⟩ := hsteady.drive hdrive
    exact .inr ⟨outcome, ws, h, k, ks, lost, hresult, hcrew, hinv, hgoal⟩

end ScriptEngine
