import ScriptEngine.Proofs.Resets.Statements

/-!
# Threads that overlook what is old

Threads that were started since an epoch mention only what has come up since, and so does all that
they wait for.  They take the same turns whether or not the old is forgotten (`driven`).
-/

namespace ScriptEngine

variable {t : Epoch} {E : Engine} {h : Heap} {α : Type} {P : α → Prop}

/-! ### The work of a thread -/

theorem recent_threadOutcome
    {o : Except Signal Flow} (ho : Recent t o) :
    Recent t (Eval.threadOutcome o) := by
  cases o with
  | ok flow =>
      cases flow with
      | value v => exact ho
      | ret v => exact ho
      | stop => exact recent_faulted
      | next => exact recent_faulted
  | error s =>
      cases s with
      | thrown e => exact ho
      | fault f => exact recent_faulted

theorem recent_rejection
    {s : Signal} (hs : Recent t s) :
    Recent t (Builtin.rejection s) := by
  cases s with
  | thrown e => exact hs
  | fault f => exact recent_vstr (t := t) (s := f.cause.text)

namespace Oblivious

theorem settleWith
    {target : Nat} {x : Eval Settlement} (htarget : t.futures ≤ target)
    (hx : Oblivious t x (Recent t)) :
    Oblivious t (Eval.settleWith target x) fun _ => True := by
  refine (attempt hx).bind fun o ho => ?_
  have hsettled {s : Settlement} (hs : Recent t s) :
      Oblivious t (do let _ ← Builtin.settleFuture target s) fun _ => True :=
    (settleFuture htarget hs).bind fun _ _ => pure trivial
  dsimp only
  split
  · exact (pure (P := Recent t) ho).bind fun s hs => hsettled hs
  · exact (pure (recent_rejection ho)).bind fun s hs => hsettled hs

theorem runJob
    [Unmindful t E] {j : Job} (hj : Recent t j) :
    Oblivious t (Eval.runJob E j) fun _ => True := by
  cases j with
  | thread id body env =>
      refine (attempt (leaveFrame hj.2 (.block body))).bind fun o ho => modify ?_
      exact .endThread hj.1 (recent_threadOutcome (ended_recent.mp ho))
  | async body target =>
      exact settleWith hj.2 ((callback hj.1 recent_nil).bind fun v hv => pure hv)
  | continuation k settled =>
      exact settleWith hj.1.2 (continueWith hj.1 hj.2)

end Oblivious

/-! ### Waiting threads -/

/-- Threads that wait for the same and go on alike, apart from what is older than an epoch. -/
structure Waiting.Alike (t : Epoch) (w w' : Waiting) : Prop where
  blocker : w'.blocker = w.blocker
  recent : Recent t w.blocker
  resume : ∀ h, h.Renewed t → Parallel t (fun _ => True) (w.resume h) (w'.resume (h.forget t))

/-- So do lists of them, one by one. -/
abbrev Waiting.AllAlike (t : Epoch) : List Waiting → List Waiting → Prop :=
  List.Forall₂ (Waiting.Alike t)

/-- Threads have come to wait for the same, or cannot go on. -/
inductive Paused (t : Epoch) :
    Option (List Waiting × Heap) → Option (List Waiting × Heap) → Prop
  | waits {ws ws' : List Waiting} {h : Heap} :
      Waiting.AllAlike t ws ws' → h.Renewed t → Paused t (some (ws, h)) (some (ws', h.forget t))
  | stuck :
      Paused t none none

namespace Waiting.AllAlike

variable {ws ws' : List Waiting}

theorem blockers
    (hws : Waiting.AllAlike t ws ws') :
    ws'.map (·.blocker) = ws.map (·.blocker) := by
  induction hws with
  | nil =>
      rfl
  | cons hw _ ih =>
      rw [List.map_cons, List.map_cons, hw.blocker, ih]

theorem recent
    (hws : Waiting.AllAlike t ws ws') :
    Recent t (ws.map (·.blocker)) := by
  induction hws with
  | nil =>
      exact recent_nil
  | cons hw _ ih =>
      exact recent_cons.mpr ⟨hw.recent, ih⟩

theorem append
    {w w' : Waiting} (hws : Waiting.AllAlike t ws ws') (hw : w.Alike t w') :
    Waiting.AllAlike t (ws ++ [w]) (ws' ++ [w']) := by
  exact List.rel_append hws (.cons hw .nil)

end Waiting.AllAlike

/-! ### Taking turns -/

theorem isReady_forget
    {b : Blocker} (hb : Recent t b) :
    b.isReady (h.forget t) = b.isReady h := by
  cases b with
  | turn => rfl
  | room c =>
      have hc : t.channels ≤ c := hb
      simp only [Blocker.isReady, Heap.channel_forget hc]
  | message c =>
      have hc : t.channels ≤ c := hb
      simp only [Blocker.isReady, Heap.channel_forget hc]
  | waker w =>
      exact Hub.isWoken_forget hb
  | thread id =>
      have hid : t.threads ≤ id := hb
      simp only [Blocker.isReady, Heap.thread_forget hid]
  | future id =>
      have hid : t.futures ≤ id := hb
      simp only [Blocker.isReady, Heap.future_forget hid]
  | futureUntil id time =>
      have hid : t.futures ≤ id := hb
      simp only [Blocker.isReady, Heap.future_forget hid]
      rfl
  | time time => rfl

theorem Paused.enqueue
    {ws ws' : List Waiting} {r r' : Res Unit} (hws : Waiting.AllAlike t ws ws')
    (hr : Parallel t (fun _ => True) r r') :
    Paused t (Eval.enqueue ws r) (Eval.enqueue ws' r') := by
  cases hr with
  | value _ hh =>
      exact .waits hws hh
  | raise _ hh =>
      exact .waits hws hh
  | blocked hb hh hresume =>
      exact .waits (hws.append ⟨rfl, hb, hresume⟩) hh
  | outOfFuel =>
      exact .stuck

theorem Paused.startJobs
    [Unmindful t E] {js : List Job} {ws ws' : List Waiting} (limit : Nat) (hjs : Recent t js)
    (hws : Waiting.AllAlike t ws ws') (hh : h.Renewed t) :
    Paused t (Eval.startJobs E limit js ws h) (Eval.startJobs E limit js ws' (h.forget t)) := by
  induction js generalizing ws ws' h with
  | nil =>
      exact .waits hws hh
  | cons j js ih =>
      obtain ⟨hj, hjs⟩ := recent_cons.mp hjs
      have hstarted := Paused.enqueue hws (Oblivious.runJob (E := E) hj (.ofLimit limit) h hh)
      unfold Eval.startJobs
      generalize Eval.enqueue ws _ = o at hstarted ⊢
      generalize Eval.enqueue ws' _ = o' at hstarted ⊢
      cases hstarted with
      | waits hws hh =>
          exact ih hjs hws hh
      | stuck =>
          exact .stuck

theorem Paused.resumeReady
    {ws ws' kept kept' : List Waiting} (hws : Waiting.AllAlike t ws ws')
    (hkept : Waiting.AllAlike t kept kept') (hh : h.Renewed t) :
    Paused t (Eval.resumeReady ws kept h) (Eval.resumeReady ws' kept' (h.forget t)) := by
  induction hws generalizing kept kept' h with
  | nil =>
      exact .waits hkept hh
  | @cons w w' ws ws' hw hws ih =>
      have hresumed := Paused.enqueue hkept (hw.resume h hh)
      rw [Eval.resumeReady, Eval.resumeReady, hw.blocker, isReady_forget hw.recent]
      split
      · generalize Eval.enqueue kept _ = o at hresumed ⊢
        generalize Eval.enqueue kept' _ = o' at hresumed ⊢
        cases hresumed with
        | waits hkept hh =>
            exact ih hkept hh
        | stuck =>
            exact .stuck
      · exact ih (hkept.append hw) hh

theorem Paused.round
    [Unmindful t E] {ws ws' : List Waiting} (limit : Nat) (hws : Waiting.AllAlike t ws ws')
    (hh : h.Renewed t) :
    Paused t (Eval.round E limit ws h) (Eval.round E limit ws' (h.forget t)) := by
  obtain ⟨hsame, hrenewed⟩ := Overlooks.takeJobs h hh
  have hstarted := Paused.startJobs (E := E) limit hh.jobs hws hrenewed
  rw [← hsame] at hstarted
  unfold Eval.round
  rw [Heap.jobs_forget]
  generalize Eval.startJobs E limit h.jobs ws _ = o at hstarted ⊢
  generalize Eval.startJobs E limit h.jobs ws' _ = o' at hstarted ⊢
  cases hstarted with
  | waits hws hh =>
      exact Paused.resumeReady hws .nil hh
  | stuck =>
      exact .stuck

/-- The clock is set to the same time. -/
theorem advance?_forget
    {bs : List Blocker} (hbs : Recent t bs) (hh : h.Renewed t) :
    Eval.advance? bs (h.forget t) = (Eval.advance? bs h).map (·.forget t) ∧
      ∀ h', Eval.advance? bs h = some h' → h'.Renewed t := by
  have hawake : bs.any (Eval.isAwake (h.forget t)) = bs.any (Eval.isAwake h) := by
    rw [Bool.eq_iff_iff, List.any_eq_true, List.any_eq_true]
    refine exists_congr fun b => and_congr_right fun hb => ?_
    rw [Eval.isAwake, Eval.isAwake, isReady_forget (hbs b hb)]
  have hset (n : Nat) : Heap.Renewed t { h with clock := n } := { hh with }
  unfold Eval.advance?
  rw [Heap.jobs_forget, hawake]
  split
  · refine ⟨rfl, ?_⟩
    rintro _ ⟨⟩
    exact hh
  · split
    · refine ⟨rfl, ?_⟩
      rintro _ ⟨⟩
      exact hset _
    · cases Eval.nextDeadline? bs with
      | none =>
          exact ⟨rfl, nofun⟩
      | some time =>
          refine ⟨rfl, ?_⟩
          rintro _ ⟨⟩
          exact hset _

/-! ### The main thread -/

/-- The main thread has taken the same turn, or cannot. -/
inductive Turned (t : Epoch) {α : Type} (P : α → Prop) :
    Option (Res α × List Waiting) → Option (Res α × List Waiting) → Prop
  | on {r r' : Res α} {ws ws' : List Waiting} :
      Parallel t P r r' → Waiting.AllAlike t ws ws' → Turned t P (some (r, ws)) (some (r', ws'))
  | stuck :
      Turned t P none none

/-- The main thread has ended with the same, or never ends. -/
inductive Driven (t : Epoch) {α : Type} (P : α → Prop) :
    Option (Except Signal α × List Waiting × Heap) →
    Option (Except Signal α × List Waiting × Heap) → Prop
  | ended {o : Except Signal α} {ws ws' : List Waiting} {h : Heap} :
      Ended t P o → Waiting.AllAlike t ws ws' → h.Renewed t →
      Driven t P (some (o, ws, h)) (some (o, ws', h.forget t))
  | endless :
      Driven t P none none

theorem Turned.turn
    [Unmindful t E] {b : Blocker} {resume resume' : Heap → Res α} {ws ws' : List Waiting}
    (limit : Nat) (hb : Recent t b) (hh : h.Renewed t)
    (hresume : ∀ h, h.Renewed t → Parallel t P (resume h) (resume' (h.forget t)))
    (hws : Waiting.AllAlike t ws ws') :
    Turned t P (Eval.turn E limit b h resume ws)
      (Eval.turn E limit b (h.forget t) resume' ws') := by
  obtain ⟨hsame, hrenewed⟩ := advance?_forget (recent_cons.mpr ⟨hb, hws.recent⟩) hh
  unfold Eval.turn
  rw [hws.blockers, hsame]
  cases hadvanced : Eval.advance? (b :: ws.map (·.blocker)) h with
  | none =>
      exact .stuck
  | some h' =>
      have hround := Paused.round (E := E) limit hws (hrenewed h' hadvanced)
      dsimp only [Option.map_some]
      generalize Eval.round E limit ws _ = o at hround ⊢
      generalize Eval.round E limit ws' _ = o' at hround ⊢
      cases hround with
      | stuck =>
          exact .stuck
      | waits hws hh =>
          refine .on ?_ hws
          rw [isReady_forget hb]
          split
          · exact hresume _ hh
          · exact .blocked hb hh hresume

/-- The main thread comes to the same end. -/
theorem Driven.drive
    [Unmindful t E] {r r' : Res α} {ws ws' : List Waiting} (limit fuel : Nat)
    (hr : Parallel t P r r') (hws : Waiting.AllAlike t ws ws') :
    Driven t P (Eval.drive E limit fuel r ws) (Eval.drive E limit fuel r' ws') := by
  induction fuel generalizing r r' ws ws' with
  | zero =>
      cases hr with
      | value ha hh => exact .ended ha hws hh
      | raise hs hh => exact .ended hs hws hh
      | blocked _ _ _ => exact .endless
      | outOfFuel => exact .endless
  | succ fuel ih =>
      cases hr with
      | value ha hh => exact .ended ha hws hh
      | raise hs hh => exact .ended hs hws hh
      | outOfFuel => exact .endless
      | @blocked b h resume resume' hb hh hresume =>
          have hturned := Turned.turn (E := E) limit hb hh hresume hws
          rw [Eval.drive, Eval.drive]
          generalize Eval.turn E limit b h resume ws = o at hturned ⊢
          generalize Eval.turn E limit b _ resume' ws' = o' at hturned ⊢
          cases hturned with
          | on hr hws => exact ih hr hws
          | stuck => exact .endless

end ScriptEngine
