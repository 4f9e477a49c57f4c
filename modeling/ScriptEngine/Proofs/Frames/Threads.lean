import ScriptEngine.Proofs.Evaluation.Threads
import ScriptEngine.Proofs.Frames.Evaluation

/-!
# Threads share the frames

Every frame that is not idle is held by exactly one thread.  `Shared` says so of a list of what the
threads hold: no two of them hold the same frame, none holds the frame of a thread that is yet to
begin, and what none holds is idle.  A stretch of one thread keeps this, whichever thread it is.

So the threads of a run are a `Sharing` of frames: `Shared` holds at every moment of a run, and the
history obeys the law of deferred calls.
-/

namespace ScriptEngine

/-- How several threads hold frames.  The jobs are those that have been taken from the heap. -/
structure Shared (ks : List Holding) (js : List Job) (h : Heap) : Prop where
  holds : ∀ k ∈ ks, Holds k h
  apart : ks.Pairwise fun k k' => ∀ f, k f = none ∨ k' f = none
  idle : ∀ f, (∀ k ∈ ks, k f = none) → h.At f .idle
  fresh : ∀ {id body env}, .thread id body env ∈ js ++ h.jobs →
    ∃ f, env = [f] ∧ h.IsFrame f ∧ ∀ k ∈ ks, k f = none
  distinct : ((js ++ h.jobs).filterMap Job.frame?).Nodup

namespace Shared

variable {k k' : Holding} {ks ks' : List Holding} {j : Job} {js : List Job} {h h' : Heap}

/-- The frame of a thread that is yet to begin is held by nobody. -/
theorem frame_fresh
    (hs : Shared ks js h) {f : ScopeId}
    (hf : f ∈ (js ++ h.jobs).filterMap Job.frame?) :
    h.IsFrame f ∧ ∀ k ∈ ks, k f = none := by
  obtain ⟨j, hj, hframe⟩ := List.mem_filterMap.mp hf
  cases j with
  | thread id body env =>
      obtain ⟨g, rfl, hg, hnone⟩ := hs.fresh hj
      cases hframe
      exact ⟨hg, hnone⟩
  | async body target =>
      cases hframe
  | continuation c settled =>
      cases hframe

/-- Every frame has a status. -/
theorem exists_after
    (hs : Shared ks js h) (f : ScopeId) :
    ∃ s, After f h.history s := by
  by_cases hnone : ∀ k ∈ ks, k f = none
  · exact ⟨_, (hs.idle f hnone).1⟩
  · simp only [Classical.not_forall] at hnone
    obtain ⟨k, hk, hne⟩ := hnone
    obtain ⟨s, hf⟩ := Option.ne_none_iff_exists'.mp hne
    exact ⟨s, ((hs.holds k hk).status hf).1⟩

/-- Scopes that do not exist yet are held by nobody. -/
theorem tidy
    (hs : Shared ks js h) :
    h.Tidy := by
  intro f hf
  refine hs.idle f fun k hk => ?_
  cases hkf : k f with
  | none =>
      rfl
  | some s =>
      exact absurd ((hs.holds k hk).framed hkf).lt_width (Nat.not_lt.mpr hf)

/-- The order of the threads does not matter. -/
theorem perm
    (hs : Shared ks js h) (hperm : ks.Perm ks') :
    Shared ks' js h where
  holds k hk := hs.holds k (hperm.mem_iff.mpr hk)
  apart := (hperm.pairwise_iff fun hor f => (hor f).symm).mp hs.apart
  idle f hf := hs.idle f fun k hk => hf k (hperm.mem_iff.mp hk)
  fresh hj := by
    obtain ⟨f, henv, hframe, hnone⟩ := hs.fresh hj
    exact ⟨f, henv, hframe, fun k hk => hnone k (hperm.mem_iff.mpr hk)⟩
  distinct := hs.distinct

/-- A thread that holds nothing may come in. -/
theorem cons_none
    (hs : Shared ks js h) :
    Shared (.none :: ks) js h where
  holds k hk := by
    rcases List.mem_cons.mp hk with rfl | hk
    · exact ⟨hs.tidy, fun hf => by simp at hf, fun hf => by simp at hf⟩
    · exact hs.holds k hk
  apart := List.pairwise_cons.mpr ⟨fun _ _ _ => .inl rfl, hs.apart⟩
  idle f hf := hs.idle f fun k hk => hf k (List.mem_cons_of_mem _ hk)
  fresh hj := by
    obtain ⟨f, henv, hframe, hnone⟩ := hs.fresh hj
    refine ⟨f, henv, hframe, fun k hk => ?_⟩
    rcases List.mem_cons.mp hk with rfl | hk
    · rfl
    · exact hnone k hk
  distinct := hs.distinct

/-- A thread that holds nothing may go away. -/
theorem of_cons_none
    (hs : Shared (.none :: ks) js h) :
    Shared ks js h where
  holds k hk := hs.holds k (List.mem_cons_of_mem _ hk)
  apart := (List.pairwise_cons.mp hs.apart).2
  idle f hf := by
    refine hs.idle f fun k hk => ?_
    rcases List.mem_cons.mp hk with rfl | hk
    · rfl
    · exact hf k hk
  fresh hj := by
    obtain ⟨f, henv, hframe, hnone⟩ := hs.fresh hj
    exact ⟨f, henv, hframe, fun k hk => hnone k (List.mem_cons_of_mem _ hk)⟩
  distinct := hs.distinct

/-- A stretch of one thread leaves the others what they hold. -/
theorem stretch
    (hs : Shared (k :: ks) js h) (hstretch : Stretch k h k' h') :
    Shared (k' :: ks) js h' := by
  obtain ⟨hapart, hrest⟩ := List.pairwise_cons.mp hs.apart
  have hgrows := hstretch.grows
  have hholds (k'' : Holding) (hk'' : k'' ∈ ks) : Holds k'' h :=
    hs.holds k'' (List.mem_cons_of_mem _ hk'')
  have hframe {f : ScopeId} (hf : h.IsFrame f) : h'.IsFrame f :=
    (hgrows.frames f hf.lt_width).mpr hf
  -- what another thread holds, this one does not touch
  have hspared {k'' : Holding} (hk'' : k'' ∈ ks) {f : ScopeId} {s : Status}
      (hf : k'' f = some s) : k f = none ∧ f < h.width := by
    refine ⟨(hapart k'' hk'' f).resolve_right ?_, ((hholds k'' hk'').framed hf).lt_width⟩
    simp [hf]
  have hnone {f : ScopeId} (hk : k f = none) (hf : f < h.width) : k' f = none := by
    cases hk' : k' f with
    | none =>
        rfl
    | some s =>
        exact (hstretch.held hk').elim (absurd hk) fun hle => absurd hf (Nat.not_lt.mpr hle)
  obtain ⟨js', hspawned⟩ := hstretch.spawned
  have hjobs : js ++ h'.jobs = (js ++ h.jobs) ++ js' := by
    rw [hspawned.jobs, List.append_assoc]
  refine ⟨fun k'' hk'' => ?_, ?_, fun f hf => ?_, fun {id body env} hj => ?_, ?_⟩
  · rcases List.mem_cons.mp hk'' with rfl | hk''
    · exact hstretch.holds
    · refine ⟨hstretch.holds.tidy, fun {f s} hf => ?_, fun {f s} hf => ?_⟩
      · obtain ⟨hk, hlt⟩ := hspared hk'' hf
        exact hstretch.spares hk hlt ((hholds k'' hk'').status hf)
      · exact hframe ((hholds k'' hk'').framed hf)
  · refine List.pairwise_cons.mpr ⟨fun k'' hk'' f => ?_, hrest⟩
    cases hf : k'' f with
    | none =>
        exact .inr rfl
    | some s =>
        obtain ⟨hk, hlt⟩ := hspared hk'' hf
        exact .inl (hnone hk hlt)
  · have hk' := hf k' List.mem_cons_self
    by_cases hor : k f ≠ none ∨ h.width ≤ f
    · exact hstretch.released hk' hor
    · simp only [not_or, Decidable.not_not, Nat.not_le] at hor
      obtain ⟨hk, hlt⟩ := hor
      refine hstretch.spares hk hlt (hs.idle f fun k'' hk'' => ?_)
      rcases List.mem_cons.mp hk'' with rfl | hk''
      · exact hk
      · exact hf k'' (List.mem_cons_of_mem _ hk'')
  · rw [hjobs] at hj
    rcases List.mem_append.mp hj with hj | hj
    · obtain ⟨f, henv, hf, hfree⟩ := hs.fresh hj
      refine ⟨f, henv, hframe hf, fun k'' hk'' => ?_⟩
      rcases List.mem_cons.mp hk'' with rfl | hk''
      · exact hnone (hfree k List.mem_cons_self) hf.lt_width
      · exact hfree k'' (List.mem_cons_of_mem _ hk'')
    · obtain ⟨f, henv, hle, hf, hfree⟩ := hspawned.fresh hj
      refine ⟨f, henv, hf, fun k'' hk'' => ?_⟩
      rcases List.mem_cons.mp hk'' with rfl | hk''
      · exact hfree
      · cases hkf : k'' f with
        | none =>
            rfl
        | some s =>
            exact absurd (hspared hk'' hkf).2 (Nat.not_lt.mpr hle)
  · rw [hjobs, List.filterMap_append]
    refine List.nodup_append.mpr ⟨hs.distinct, hspawned.distinct, fun f hf g hg => ?_⟩
    rintro rfl
    exact absurd (hs.frame_fresh hf).1.lt_width
      (Nat.not_lt.mpr (hspawned.frame_fresh hg).1)

/-- A calm change of the heap concerns no thread. -/
theorem calm
    (hs : Shared ks js h) (hcalm : Calm h h') :
    Shared ks js h' := by
  exact (hs.cons_none.stretch (.calm (hs.cons_none.holds _ List.mem_cons_self) hcalm)).of_cons_none

/-- The jobs of a heap are taken to be begun. -/
theorem take_jobs
    (hs : Shared ks [] h) :
    Shared ks h.jobs { h with jobs := [] } where
  holds k hk := ⟨(hs.holds k hk).tidy, (hs.holds k hk).status, (hs.holds k hk).framed⟩
  apart := hs.apart
  idle := hs.idle
  fresh hj := by
    rw [List.append_nil] at hj
    exact hs.fresh hj
  distinct := by
    rw [List.append_nil]
    exact hs.distinct

/-- A thread comes to hold a frame that nobody holds. -/
theorem hold
    {f : ScopeId}
    (hs : Shared ks js h)
    (hf : h.IsFrame f)
    (hfree : ∀ k ∈ ks, k f = none)
    (hnot : f ∉ (js ++ h.jobs).filterMap Job.frame?) :
    Shared (Holding.none.set f (some .idle) :: ks) js h where
  holds k hk := by
    rcases List.mem_cons.mp hk with rfl | hk
    · refine ⟨hs.tidy, fun {g s} hg => ?_, fun {g s} hg => ?_⟩
      · by_cases heq : g = f
        · subst heq
          cases (Holding.set_same _ _ _).symm.trans hg
          exact hs.idle g hfree
        · rw [Holding.none.set_of_ne _ heq] at hg
          cases hg
      · by_cases heq : g = f
        · subst heq
          exact hf
        · rw [Holding.none.set_of_ne _ heq] at hg
          cases hg
    · exact hs.holds k hk
  apart := by
    refine List.pairwise_cons.mpr ⟨fun k hk g => ?_, hs.apart⟩
    by_cases heq : g = f
    · subst heq
      exact .inr (hfree k hk)
    · exact .inl (Holding.none.set_of_ne _ heq)
  idle g hg := hs.idle g fun k hk => hg k (List.mem_cons_of_mem _ hk)
  fresh {id body env} hj := by
    obtain ⟨g, rfl, hframe, hnone⟩ := hs.fresh hj
    refine ⟨g, rfl, hframe, fun k hk => ?_⟩
    rcases List.mem_cons.mp hk with rfl | hk
    · refine Holding.none.set_of_ne _ fun heq => hnot ?_
      subst heq
      exact List.mem_filterMap.mpr ⟨_, hj, rfl⟩
    · exact hnone k hk
  distinct := hs.distinct

/-- What the thread of a job holds when it begins. -/
def begun : Job → Holding
  | .thread _ _ (f :: _) => Holding.none.set f (some .idle)
  | _ => .none

/-- The thread of a job begins: it holds its frame. -/
theorem begin
    (hs : Shared ks (j :: js) h) :
    Shared (begun j :: ks) js h := by
  have hrest : Shared ks js h :=
    { holds := hs.holds
      apart := hs.apart
      idle := hs.idle
      fresh := fun hj => hs.fresh (List.mem_cons_of_mem _ hj)
      distinct := by
        have hsub : (js ++ h.jobs).Sublist (j :: (js ++ h.jobs)) := List.sublist_cons_self _ _
        exact hs.distinct.sublist (hsub.filterMap _) }
  have hcases : begun j = .none ∨ ∃ f, j.frame? = some f ∧
      begun j = Holding.none.set f (some .idle) := by
    unfold begun
    split
    · exact .inr ⟨_, rfl, rfl⟩
    · exact .inl rfl
  rcases hcases with hnone | ⟨f, hframe, hbegun⟩
  · rw [hnone]
    exact hrest.cons_none
  · have hmem : f ∈ (j :: js ++ h.jobs).filterMap Job.frame? :=
      List.mem_filterMap.mpr ⟨j, List.mem_cons_self, hframe⟩
    have hdistinct := hs.distinct
    rw [List.cons_append, List.filterMap_cons_some hframe, List.nodup_cons] at hdistinct
    rw [hbegun]
    exact hrest.hold (hs.frame_fresh hmem).1 (hs.frame_fresh hmem).2 hdistinct.1

/-- A thread has come as far as it can, and may never go on. -/
theorem ended
    {α : Type} {Q : Protocol.Goal Holding α} {r : Res α}
    (hs : Shared (k :: ks) js h) (hr : frames.Follows Q r k h) :
    h.Grows (r.heap?.getD h) ∧ ∃ k', Shared (k' :: ks) js (r.heap?.getD h) := by
  cases r with
  | value a h₁ =>
      obtain ⟨k', hstretch, -⟩ := hr
      exact ⟨hstretch.grows, k', hs.stretch hstretch⟩
  | raise s h₁ =>
      obtain ⟨k', hstretch, -⟩ := hr
      exact ⟨hstretch.grows, k', hs.stretch hstretch⟩
  | blocked b h₁ resume =>
      obtain ⟨k', hstretch, -⟩ := hr
      exact ⟨hstretch.grows, k', hs.stretch hstretch⟩
  | outOfFuel =>
      exact ⟨.refl h, k, hs⟩

end Shared

/-! ### The work of threads -/

/-- Whatever a job runs keeps the protocol, and in the end its thread holds nothing. -/
theorem Lawful.settleWith
    {r : Role} {x : Eval Settlement} (target : Nat)
    (hx : Lawful r x) :
    Lawful r (Eval.settleWith target x) := by
  refine bind (attempt hx) fun outcome => ?_
  have hsettle (s : Settlement) : Lawful r (Builtin.settleFuture target s) :=
    lawful_composed (.settleFuture target s)
  split
  · exact bind (pure _) fun s => bind (hsettle s) fun _ => pure _
  · exact bind (pure _) fun s => bind (hsettle s) fun _ => pure _

theorem Eval.runJob_follows
    (limit : Nat) (j : Job) {h : Heap}
    (hj : ∀ id body env, j = .thread id body env → ∃ f, env = [f])
    (hk : Holds (Shared.begun j) h) :
    frames.Follows (fun _ k' => k' = .none)
      (runJob engine j (.ofLimit limit) h) (Shared.begun j) h := by
  have hready {k : Holding} : Role.Ready (.ofLimit limit) k := fun f hf => by cases hf
  cases j with
  | thread id body env =>
      obtain ⟨f, rfl⟩ := hj id body env rfl
      have hbody : Lawful (.frame [f]) (leaveFrame engine [f] (.block body)) :=
        lawful_composed (.leaveFrame _ _)
      have hend (outcome : Except Signal Flow) (h : Heap) : Calm h
          { h with threads := h.threads.setIfInBounds id (some (threadOutcome outcome)) } := by
        refine ⟨rfl, Nat.le_refl _, fun _ => rfl, ⟨[], by simp, by simp, fun _ => rfl⟩, ?_, ?_⟩
        · simp
        · exact Nat.le_refl _
      have hjob : Lawful (.frame [f]) (runJob engine (.thread id body [f])) :=
        .bind (.attempt hbody) fun outcome => .modify (hend outcome)
      have hrun := hjob (.ofLimit limit) _ h hk
        ⟨hready, f, [], rfl, Holding.set_same _ _ _⟩
      refine hrun.release fun o k' h' hk' hpost => ?_
      cases hpost
      refine ⟨_, .release hk' (Holding.set_same _ _ _), ?_⟩
      rw [Shared.begun, Holding.set_set]
      exact Holding.set_eq_self rfl
  | async body target =>
      have hwork : Lawful .expression (runJob engine (.async body target)) :=
        .settleWith target (.bind (lawful_composed (.callback body [])) fun v => .pure _)
      exact hwork _ _ h hk hready
  | continuation c settled =>
      have hwork : Lawful .expression (runJob engine (.continuation c settled)) :=
        .settleWith c.target (lawful_composed (.continueWith c settled))
      exact hwork _ _ h hk hready

/-! ### Sharing -/

/-- How threads share frames. -/
def sharedFrames (limit : Nat) : Sharing frames limit where
  inv := Shared
  begun := Shared.begun
  done k := k = .none
  holds hs := hs.holds _ List.mem_cons_self
  perm := Shared.perm
  stretch := Shared.stretch
  leave hs hdone := by
    subst hdone
    exact hs.of_cons_none
  take hs := ⟨⟨Nat.le_refl _, fun _ _ => Iff.rfl⟩, hs.take_jobs⟩
  clock {k ks h} hs t := by
    have hcalm : Calm h { h with clock := t } := .of_eq rfl rfl rfl rfl rfl
    exact ⟨(Stretch.calm (hs.holds _ List.mem_cons_self) hcalm).grows, hs.calm hcalm⟩
  begin := Shared.begin
  work {j ks js h} hs := by
    refine Eval.runJob_follows limit j ?_ (hs.begin.holds _ List.mem_cons_self)
    rintro id body env rfl
    obtain ⟨f, henv, -⟩ := hs.fresh List.mem_cons_self
    exact ⟨f, henv⟩

/-- A history at a moment of a run obeys the law of deferred calls. -/
theorem Steady.deferLaw
    {limit : Nat} {α : Type} {Q : Protocol.Goal Holding α} {r : Res α} {ws : List Waiting}
    {h : Heap}
    (hsteady : Steady (sharedFrames limit) Q r ws) (hh : r.heap? = some h) :
    DeferLaw h.history.reverse := by
  obtain ⟨k, ks, lost, -, hs, -⟩ := hsteady h hh
  exact .of_after fun f => Shared.exists_after hs f

end ScriptEngine
