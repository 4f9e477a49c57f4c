import ScriptEngine.Proofs.Evaluation.Language
import ScriptEngine.Proofs.Frames.Holding

/-!
# Programs keep the protocol of frames

What a computation may count on and what it leaves behind depends on its role.

1. An expression runs as code of a frame that is not waiting, if of any, and leaves everything that
   the thread holds as it was.
2. A statement runs in the body of a frame, and may defer calls there.
3. What opens a frame holds it idle, and leaves it idle.

`Lawful` says so, each operation of `Composed` keeps it, and `lawful_run` follows for whatever the
engine runs by induction on the fuel.
-/

namespace ScriptEngine

namespace Role

variable {r : Role} {c : Context} {k k' k'' : Holding} {h h' : Heap}

/-- The frame whose code runs is not waiting. -/
def Ready (c : Context) (k : Holding) : Prop :=
  ∀ f, c.frame = some f → ∃ s, k f = some s ∧ s.Runs

/-- What a computation may count on. -/
def Pre : Role → Context → Holding → Heap → Prop
  | .expression, c, k, _ | .call, c, k, _ => Ready c k
  | .statement envs, c, k, h => ∃ f caller ds,
      c.frame = some f ∧ k f = some ⟨.body caller ds, none⟩ ∧ ∀ env ∈ envs, h.Within f env
  | .frame env, c, k, _ => Ready c k ∧ ∃ f rest, env = f :: rest ∧ k f = some .idle

/-- What a computation leaves behind. -/
def Post : Role → Context → Holding → Holding → Prop
  | .expression, _, k, k' | .call, _, k, k' => k' = k
  | .statement _, c, k, k' => ∃ f caller ds ds',
      c.frame = some f ∧ k f = some ⟨.body caller ds, none⟩ ∧
        k' = k.set f (some ⟨.body caller ds', none⟩)
  | .frame _, _, k, k' => k' = k

theorem Pre.ready
    (hpre : r.Pre c k h) :
    Ready c k := by
  cases r with
  | expression | call =>
      exact hpre
  | statement envs =>
      obtain ⟨f, caller, ds, hframe, hf, -⟩ := hpre
      intro g hg
      cases hframe.symm.trans hg
      exact ⟨_, hf, by simp, rfl⟩
  | frame env =>
      exact hpre.1

theorem Pre.post
    (hpre : r.Pre c k h) :
    r.Post c k k := by
  cases r with
  | expression | call =>
      rfl
  | statement envs =>
      obtain ⟨f, caller, ds, hframe, hf, -⟩ := hpre
      exact ⟨f, caller, ds, ds, hframe, hf, (Holding.set_eq_self hf).symm⟩
  | frame env =>
      rfl

theorem Post.trans
    (h₁ : r.Post c k k') (h₂ : r.Post c k' k'') :
    r.Post c k k'' := by
  cases r with
  | expression | call =>
      exact Eq.trans h₂ h₁
  | statement envs =>
      obtain ⟨f, caller, ds, ds', hframe, hf, rfl⟩ := h₁
      obtain ⟨g, caller', ds₁, ds₂, hframe', hg, rfl⟩ := h₂
      cases hframe.symm.trans hframe'
      rw [Holding.set_same] at hg
      cases hg
      exact ⟨f, caller, ds, ds₂, hframe, hf, by simp⟩
  | frame env =>
      exact Eq.trans h₂ h₁

/-- The next computation may count on the same as the last one. -/
theorem Pre.next
    (hpre : r.Pre c k h) (hpost : r.Post c k k') (hgrows : h.Grows h') :
    r.Pre c k' h' := by
  cases r with
  | expression | call =>
      cases hpost
      exact hpre
  | statement envs =>
      obtain ⟨f, caller, ds, hframe, hf, henvs⟩ := hpre
      obtain ⟨g, caller', ds₁, ds₂, hframe', hg, rfl⟩ := hpost
      cases hframe.symm.trans hframe'
      exact ⟨f, caller', ds₂, hframe, by simp, fun env henv => (henvs env henv).grows hgrows⟩
  | frame env =>
      cases hpost
      exact hpre

end Role

/-- A computation keeps the protocol of frames in its role. -/
def Lawful (r : Role) {α : Type} (x : Eval α) : Prop :=
  ∀ c k h, Holds k h → r.Pre c k h →
    frames.Follows (fun _ k' => r.Post c k k') (x c h) k h

namespace Lawful

variable {r : Role} {α β : Type}

/-! ### Operations in any place -/

theorem pure
    (a : α) :
    Lawful r (Pure.pure a : Eval α) := by
  intro c k h hk hpre
  exact ⟨k, .refl hk, hpre.post⟩

theorem raise
    (s : Signal) :
    Lawful r (Eval.raise s : Eval α) := by
  intro c k h hk hpre
  exact ⟨k, .refl hk, hpre.post⟩

theorem ofOutcome
    (outcome : Except Signal α) :
    Lawful r (Eval.ofOutcome outcome) := by
  cases outcome with
  | ok a =>
      exact pure a
  | error s =>
      exact raise s

theorem bind
    {x : Eval α} {f : α → Eval β}
    (hx : Lawful r x) (hf : ∀ a, Lawful r (f a)) :
    Lawful r (x >>= f) := by
  intro c k h hk hpre
  rw [Eval.bind_apply]
  refine (hx c k h hk hpre).bind (fun a k' h' hgrows hk' hpost => ?_) fun _ _ hpost => hpost
  have hnext := hf a c k' h' hk' (hpre.next hpost hgrows)
  exact hnext.weaken fun _ _ hpost' => hpost.trans hpost'

theorem attempt
    {x : Eval α}
    (hx : Lawful r x) :
    Lawful r (Eval.attempt x) := by
  intro c k h hk hpre
  refine (hx c k h hk hpre).attempt.weaken fun o k' hq => ?_
  obtain ⟨outcome, -, hpost⟩ := hq
  exact hpost

theorem mapFault
    {x : Eval α} {f : Fault → Fault}
    (hx : Lawful r x) :
    Lawful r (Eval.mapFault f x) := by
  intro c k h hk hpre
  exact (hx c k h hk hpre).mapFault fun _ _ hpost => hpost

/-- Expressions may stand anywhere. -/
theorem plain
    {x : Eval α}
    (hx : Lawful .expression x) :
    Lawful r x := by
  intro c k h hk hpre
  refine (hx c k h hk hpre.ready).weaken fun o k' hpost => ?_
  cases hpost
  exact hpre.post

theorem change
    {f : Heap → α × Heap}
    (hf : ∀ h, Calm h (f h).2) :
    Lawful r (Eval.change f) := by
  intro c k h hk hpre
  exact ⟨k, .calm hk (hf h), hpre.post⟩

theorem modify
    {f : Heap → Heap}
    (hf : ∀ h, Calm h (f h)) :
    Lawful r (Eval.modify f) := by
  exact change (f := fun h => ((), f h)) hf

/-- An event in which no frame takes part. -/
theorem note
    {e : Event}
    (he : ∀ f, ¬e.Concerns f) :
    Lawful r (Eval.note e) := by
  intro c k h hk hpre
  exact ⟨k, .told e hk he, hpre.post⟩

theorem fault
    (cause : Cause) :
    Lawful r (Eval.fault cause : Eval α) := by
  exact bind (note (fun _ => id)) fun _ => raise _

/-- No frame takes part where a fault is lost. -/
theorem supersede_apply
    (outcome : Except Signal α) (c : Context) {k : Holding} {h : Heap}
    (hk : Holds k h) :
    ∃ h', Eval.supersede outcome c h = .value () h' ∧ Stretch k h k h' := by
  unfold Eval.supersede
  split
  · next f =>
      exact ⟨h.note (.superseded f.cause), rfl, .told _ hk fun _ => id⟩
  · exact ⟨h, rfl, .refl hk⟩

theorem supersede
    (outcome : Except Signal α) :
    Lawful r (Eval.supersede outcome) := by
  intro c k h hk hpre
  obtain ⟨h', happly, hstretch⟩ := supersede_apply outcome c hk
  rw [happly]
  exact ⟨k, hstretch, hpre.post⟩

theorem throwValue
    (e : Exception) :
    Lawful r (Eval.throwValue e : Eval α) := by
  exact bind (note fun _ => id) fun _ => raise _

theorem giveUp :
    Lawful r (Eval.giveUp : Eval α) := by
  intro c k h hk hpre
  trivial

theorem await
    {b : Blocker} {step : Heap → Option (α × Heap)}
    (hstep : ∀ h a h', step h = some (a, h') → Calm h h') :
    Lawful r (Eval.await b step) := by
  intro c k h hk hpre
  unfold Eval.await
  split
  · next a h' hs =>
      exact ⟨k, .calm hk (hstep _ _ _ hs), hpre.post⟩
  · refine ⟨k, .refl hk, fun h' hgrows hk' => ?_⟩
    dsimp only
    split
    · next a h'' hs =>
        exact ⟨k, .calm hk' (hstep _ _ _ hs), hpre.post⟩
    · trivial

theorem yield :
    Lawful r Eval.yield := by
  intro c k h hk hpre
  exact ⟨k, .refl hk, fun h' hgrows hk' => ⟨k, .refl hk', hpre.post⟩⟩

theorem currentFrame :
    Lawful r Eval.currentFrame := by
  intro c k h hk hpre
  exact ⟨k, .refl hk, hpre.post⟩

theorem tracked
    {a : Act} {flow : α → Flow} {x : Eval α}
    (hx : Lawful r x) :
    Lawful r (Eval.tracked a flow x) := by
  refine bind currentFrame fun frame => bind (note fun _ => id) fun _ => ?_
  exact bind (attempt hx) fun outcome => bind (note fun _ => id) fun _ => ofOutcome outcome

theorem admitted
    {x : Eval α}
    (hx : Lawful .expression x) :
    Lawful .expression (Eval.admitted x) := by
  intro c k h hk hpre
  unfold Eval.admitted
  split
  · exact bind (note fun _ => id) (fun _ => fault _) c k h hk hpre
  · exact hx { c with depth := c.depth + 1 } k h hk hpre

/-- A call is made in any place; its frame is no concern of those around it. -/
theorem invoke
    {E : Engine} {i : Invocation} {args : List Value} (site : Span)
    (hframe : Lawful .call (Eval.runFrame E i args)) :
    Lawful .expression (Eval.invoke E i args site) := by
  refine bind (note fun _ => id) fun _ => bind (attempt (admitted (mapFault hframe))) fun outcome => ?_
  exact bind (note fun _ => id) fun _ => ofOutcome outcome

theorem join
    (id : Nat) :
    Lawful r (Builtin.awaitThread id) := by
  unfold Builtin.awaitThread
  refine bind (await fun h a h' hs => ?_) fun outcome => ?_
  · obtain ⟨outcome, -, heq⟩ := Option.map_eq_some_iff.mp hs
    cases heq
    exact .refl h
  · split
    · exact pure _
    · exact throwValue _
    · exact raise _

theorem catching
    {clauses : List (CatchClause Stmt)} {x : Eval α}
    {handler : CatchClause Stmt → Exception → Eval α}
    (hx : Lawful r x) (hhandler : ∀ c e, Lawful r (handler c e)) :
    Lawful r (Eval.catching clauses x handler) := by
  refine bind (note fun _ => id) fun _ => bind (attempt hx) fun outcome => ?_
  split
  · refine bind (change (f := fun h => (h, h)) Calm.refl) fun now => ?_
    split
    · exact bind (note fun _ => id) fun _ => hhandler _ _
    · exact bind (note fun _ => id) fun _ => raise _
  · exact bind (note fun _ => id) fun _ => ofOutcome _

theorem diverting
    {x : Eval α} {handler : Exception → Eval α}
    (hx : Lawful r x) (hhandler : ∀ e, Lawful r (handler e)) :
    Lawful r (Eval.diverting x handler) := by
  refine bind (note fun _ => id) fun _ => bind (attempt hx) fun outcome => ?_
  split
  · exact bind (note fun _ => id) fun _ => hhandler _
  · exact bind (note fun _ => id) fun _ => ofOutcome _

theorem afterwards
    {x : Eval α} {f : Heap → Heap}
    (hx : Lawful r x) (hf : ∀ h, Calm h (f h)) :
    Lawful r (Eval.afterwards x f) := by
  exact bind (attempt hx) fun outcome => bind (modify hf) fun _ => ofOutcome _

theorem withCleanup
    {x cleanup : Eval Flow}
    (hx : Lawful r x) (hcleanup : Lawful r cleanup) :
    Lawful r (Eval.withCleanup x cleanup) := by
  refine bind (note fun _ => id) fun _ => bind (attempt hx) fun outcome => ?_
  refine bind (note fun _ => id) fun _ => bind (attempt hcleanup) fun later => ?_
  split
  · exact bind (note fun _ => id) fun _ => ofOutcome _
  · exact bind (note fun _ => id) fun _ => bind (supersede _) fun _ => ofOutcome _

/-! ### Scopes -/

/-- The scope of a block belongs to the frame of the scope around it. -/
theorem block
    {envs : List Env} {env : Env} {x : Env → Eval α}
    (henv : env ∈ envs)
    (hx : ∀ scope, Lawful (.statement (scope :: envs)) (x scope)) :
    Lawful (.statement envs) (Eval.openBlock env >>= x) := by
  intro c k h hk hpre
  obtain ⟨f, caller, ds, hframe, hf, henvs⟩ := hpre
  let sc : Scope := ⟨∅, h.scopes.importsOf env, none⟩
  have hstretch : Stretch k h k { h with scopes := (h.scopes.add sc).2 } :=
    .added hk (fun _ hnone => by cases hnone) rfl rfl ⟨[], .none rfl⟩
  rw [Eval.bind_apply]
  refine Protocol.Follows.after hstretch ?_
  refine hx _ c k _ hstretch.holds ⟨f, caller, ds, hframe, hf, fun scope hscope => ?_⟩
  rcases List.mem_cons.mp hscope with rfl | hscope
  · refine .block ?_ ?_ ((henvs env henv).grows hstretch.grows)
    · simp [Heap.width, Scopes.add, Scopes.child]
    · show ¬((h.scopes.add sc).2.scope h.scopes.items.size).frame.isSome
      rw [Stretch.scope_add_self]
      simp [sc]
  · exact (henvs scope hscope).grows hstretch.grows

/-- A deferred call is registered with the frame whose code runs. -/
theorem defer
    {envs : List Env} {env : Env} (d : Deferred)
    (henv : env ∈ envs) :
    Lawful (.statement envs) (Eval.deferCall env d) := by
  intro c k h hk hpre
  obtain ⟨f, caller, ds, hframe, hf, henvs⟩ := hpre
  obtain ⟨frame, hinner, hscope⟩ := (henvs env henv).innermostFrame
  have hframed := hk.framed hf
  have hdefers : h.defersOf f = frame.defers := by
    simp [Heap.defersOf, hscope]
  let h' : Heap := { h with scopes := h.scopes.deferCall env d }
  have hscopes : h'.scopes = h.scopes.update f fun sc =>
      { sc with frame := some { frame with defers := frame.defers ++ [d] } } := by
    simp [h', Scopes.deferCall, hinner]
  refine ⟨k.set f (some ⟨.body caller (ds ++ [d]), none⟩), ?_, ?_⟩
  · show Stretch k h _ (h'.note (.deferred c.frame d))
    have hafter := Heap.defersOf_update hframed.lt_width hscopes
    rw [hframe]
    refine .own hk hf .defer (fun g hg hc => ?_) (Heap.history_note h' _) rfl ?_ ?_ (fun heq => ?_)
      fun g hg => ?_
    · rcases hc with heq | heq
      · exact hg (Option.some.inj heq).symm
      · cases heq
    · show h'.scopes.items.size = _
      rw [hscopes]
      simp [Heap.width]
    · exact Heap.isFrame_update hframed hscopes
    · refine (hafter f).trans ?_
      rw [if_pos rfl, ← hdefers, heq]
      rfl
    · exact (hafter g).trans (if_neg hg)
  · exact ⟨f, caller, ds, ds ++ [d], hframe, hf, rfl⟩

/-- A frame is opened idle, and let go when it is idle again. -/
theorem openFrame
    {env : Env} {name : String} {receiver : Option Receiver} {x : Env → Eval α}
    (hx : ∀ scope, Lawful (.frame scope) (x scope)) :
    Lawful .call (Eval.openFrame env name receiver >>= x) := by
  intro c k h hk hpre
  let sc : Scope := ⟨∅, h.scopes.importsOf env, some ⟨name, receiver, []⟩⟩
  have hstretch : Stretch k h (k.set h.width (some .idle))
      { h with scopes := (h.scopes.add sc).2 } := .opened hk rfl rfl
  have hready : Role.Ready c (k.set h.width (some .idle)) := by
    intro f hf
    obtain ⟨s, hs, hruns⟩ := hpre f hf
    refine ⟨s, ?_, hruns⟩
    rw [k.set_of_ne _ (Nat.ne_of_lt (hk.framed hs).lt_width)]
    exact hs
  rw [Eval.bind_apply]
  refine Protocol.Follows.after hstretch ?_
  have hrest := hx (h.width :: env) c _ _ hstretch.holds
    ⟨hready, h.width, env, rfl, Holding.set_same _ _ _⟩
  refine hrest.release fun o k' h' hk' hpost => ?_
  cases hpost
  refine ⟨_, .release hk' (Holding.set_same _ _ _), ?_⟩
  rw [Holding.set_set]
  exact Holding.set_eq_self hk.free_width

/-- A spawned thread has a frame of its own, which nobody holds until it begins. -/
theorem spawn
    (body : List Stmt) (env : Env) :
    Lawful r (Builtin.startThread body env) := by
  intro c k h hk hpre
  let sc : Scope := ⟨(h.scopes.flatten env).1, (h.scopes.flatten env).2,
    some ⟨"<thread>", h.scopes.receiver env, []⟩⟩
  refine ⟨k, ?_, hpre.post⟩
  refine .added hk (s := sc) ?_ rfl rfl ?_
  · rintro frame hframe
    cases hframe
    rfl
  · refine ⟨[.thread _ _ _], rfl, fun {id body' env'} hj => ?_, List.pairwise_singleton _ _⟩
    cases List.mem_singleton.mp hj
    refine ⟨h.width, rfl, Nat.le_refl _, ?_, hk.free_width⟩
    show ((h.scopes.add _).2.scope h.scopes.items.size).frame.isSome
    rw [Stretch.scope_add_self]
    rfl

end Lawful

/-! ### Visits -/

/-- What a thread holds during a visit of a frame: the caller waits. -/
def Holding.during (k : Holding) (g : ScopeId) (caller : Option ScopeId) (s : Status) : Holding :=
  fun f => if f = g then some s else if caller = some f then (k f).map (·.calling g) else k f

namespace Visit

variable {E : Engine} {k : Holding} {c : Context} {g : ScopeId} {h : Heap}

theorem during_self
    (caller : Option ScopeId) (s : Status) :
    k.during g caller s g = some s := by
  simp [Holding.during]

theorem during_set
    (caller : Option ScopeId) (s s' : Status) :
    (k.during g caller s).set g (some s') = k.during g caller s' := by
  funext f
  by_cases hf : f = g <;> simp [Holding.during, Holding.set, hf]

/-- An idle frame is not the one whose code runs. -/
theorem caller_ne
    (hready : Role.Ready c k) (hg : k g = some .idle) :
    c.frame ≠ some g := by
  intro hframe
  obtain ⟨s, hs, hruns⟩ := hready g hframe
  cases hg.symm.trans hs
  exact hruns.1 rfl

/-- A visit begins: the caller has made a call. -/
theorem enter
    (hk : Holds k h) (hready : Role.Ready c k) (hg : k g = some .idle) :
    Stretch k h (k.during g c.frame ⟨.body c.frame [], none⟩)
      (h.note (.entered g c.frame)) := by
  have hne := caller_ne hready hg
  refine .event hk (Heap.history_note h _) rfl rfl (fun _ => Iff.rfl) (fun f s hs => ?_) fun f hn => ?_
  · by_cases hf : f = g
    · subst hf
      cases hg.symm.trans hs
      exact ⟨_, during_self _ _, .enter hne, fun hd => hd⟩
    · by_cases hcaller : c.frame = some f
      · obtain ⟨t, ht, hruns⟩ := hready f hcaller
        cases ht.symm.trans hs
        refine ⟨s.calling g, by simp [Holding.during, hf, hcaller, hs], ?_, fun hd => hd⟩
        rw [hcaller]
        exact .call (fun heq => hf heq.symm) hruns
      · refine ⟨s, by simp [Holding.during, hf, hcaller, hs], .other ?_, fun hd => hd⟩
        rintro (heq | heq)
        · exact hf heq.symm
        · exact hcaller heq
  · have hf : f ≠ g := by
      rintro rfl
      rw [hg] at hn
      cases hn
    refine ⟨by simp [Holding.during, hf, hn], ?_, rfl⟩
    rintro (heq | heq)
    · exact hf heq.symm
    · obtain ⟨t, ht, -⟩ := hready f heq
      rw [hn] at ht
      cases ht

/-- A visit ends: the caller goes on. -/
theorem leave
    (hk : Holds (k.during g c.frame ⟨.exit c.frame [], none⟩) h)
    (hready : Role.Ready c k) (hg : k g = some .idle) :
    Stretch (k.during g c.frame ⟨.exit c.frame [], none⟩) h k
      (h.note (.left g c.frame)) := by
  have hne := caller_ne hready hg
  refine .event hk (Heap.history_note h _) rfl rfl (fun _ => Iff.rfl) (fun f s hs => ?_) fun f hn => ?_
  · by_cases hf : f = g
    · subst hf
      cases (during_self _ _).symm.trans hs
      exact ⟨_, hg, .leave hne, fun hd => hd⟩
    · by_cases hcaller : c.frame = some f
      · obtain ⟨t, ht, hruns⟩ := hready f hcaller
        have hwaits : s = t.calling g := by
          simpa [Holding.during, hf, hcaller, ht] using hs.symm
        subst hwaits
        refine ⟨t, ht, ?_, fun hd => hd⟩
        rw [hcaller]
        exact .back (fun heq => hf heq.symm) hruns
      · refine ⟨s, by simpa [Holding.during, hf, hcaller] using hs, .other ?_, fun hd => hd⟩
        rintro (heq | heq)
        · exact hf heq.symm
        · exact hcaller heq
  · have hf : f ≠ g := by
      rintro rfl
      rw [during_self] at hn
      cases hn
    by_cases hcaller : c.frame = some f
    · obtain ⟨t, ht, -⟩ := hready f hcaller
      simp [Holding.during, hf, hcaller, ht] at hn
    · refine ⟨by simpa [Holding.during, hf, hcaller] using hn, ?_, rfl⟩
      rintro (heq | heq)
      · exact hf heq.symm
      · exact hcaller heq

/-- The body has stopped: what was deferred is to be run, the last deferred first. -/
theorem stop
    (rest : Env) {caller : Option ScopeId} {ds : List Deferred}
    (hk : Holds k h) (hg : k g = some ⟨.body caller ds, none⟩) :
    (h.scopes.takeDeferred (g :: rest)).1 = ds ∧
      Stretch k h (k.set g (some ⟨.exit caller ds.reverse, none⟩))
        (Heap.note { h with scopes := (h.scopes.takeDeferred (g :: rest)).2 } (.stopped g)) := by
  have hframed := hk.framed hg
  obtain ⟨frame, hframe⟩ := Option.isSome_iff_exists.mp hframed
  have hdefers : frame.defers = ds := by
    have hpending := (hk.status hg).2
    rw [Heap.defersOf, hframe] at hpending
    exact hpending
  refine ⟨by simp [Scopes.takeDeferred, hframe, hdefers], ?_⟩
  let h' : Heap := { h with scopes := (h.scopes.takeDeferred (g :: rest)).2 }
  have hscopes : h'.scopes = h.scopes.update g fun sc =>
      { sc with frame := some { frame with defers := [] } } := by
    simp [h', Scopes.takeDeferred, hframe]
  have hafter := Heap.defersOf_update hframed.lt_width hscopes
  refine .own hk hg .stop (fun f hf hc => hf hc.symm) (Heap.history_note h' _) rfl ?_ ?_ (fun _ => ?_)
    fun f hf => ?_
  · show h'.scopes.items.size = _
    rw [hscopes]
    simp [Heap.width]
  · exact Heap.isFrame_update hframed hscopes
  · exact (hafter g).trans (if_pos rfl)
  · exact (hafter f).trans (if_neg hf)

/-- The deferred calls run one after another, also after one that throws or faults. -/
theorem runDefers
    {caller : Option ScopeId}
    (hcall : ∀ d, Lawful .expression (Eval.makeDeferredCall E d))
    (hframe : c.frame = some g)
    (todo : List Deferred) (outcome : Except Signal Flow)
    (hk : Holds k h) (hg : k g = some ⟨.exit caller todo, none⟩) :
    frames.Follows
      (fun o k' => (∃ last, o = .ok last) ∧ k' = k.set g (some ⟨.exit caller [], none⟩))
      (Eval.runDefers E g outcome todo c h) k h := by
  induction todo generalizing outcome k h with
  | nil =>
      exact ⟨k, .refl hk, ⟨outcome, rfl⟩, (Holding.set_eq_self hg).symm⟩
  | cons d todo ih =>
      have hran : Stretch k h (k.set g (some ⟨.exit caller todo, none⟩)) (h.note (.ran g d)) :=
        .own hk hg .run (fun f hf hc => hf hc.symm) (Heap.history_note h _) rfl rfl (fun _ => Iff.rfl)
          (fun hd => hd) fun _ _ => rfl
      have hready : Role.Ready c (k.set g (some ⟨.exit caller todo, none⟩)) := by
        intro f hf
        cases hframe.symm.trans hf
        exact ⟨_, k.set_same _ _, by simp, rfl⟩
      unfold Eval.runDefers
      rw [Eval.bind_apply, Eval.note_apply]
      refine Protocol.Follows.after hran ?_
      rw [Res.bind, Eval.bind_apply, Eval.attempt_apply]
      have hrun := ((hcall d).mapFault (f := (·.locate d.span))) c _ _ hran.holds hready
      refine hrun.attempt.bind (fun o k' h' _ hk' hpost => ?_) fun s k' hpost => ?_
      · obtain ⟨outcome', -, rfl⟩ := hpost
        split
        · have htold := Stretch.told .cleaned hk' fun _ => id
          have hrest := ih outcome htold.holds (k.set_same _ _)
          rw [Holding.set_set] at hrest
          exact Protocol.Follows.after htold hrest
        · next s =>
            have htold := Stretch.told .overruled hk' fun _ => id
            obtain ⟨h'', happly, hsupersede⟩ := Lawful.supersede_apply outcome c htold.holds
            rw [Eval.note_bind_apply, Eval.bind_apply, happly]
            refine Protocol.Follows.after (htold.trans hsupersede) ?_
            have hrest := ih (.error s) hsupersede.holds (k.set_same _ _)
            rwa [Holding.set_set] at hrest
      · obtain ⟨outcome', heq, -⟩ := hpost
        cases heq

/-- A visit leaves the caller as it was, and the frame idle. -/
theorem leaveFrame
    {env : Env} {code : LambdaBody Expr Stmt}
    (hcode : Lawful (.statement [env]) (Eval.runCode E code env))
    (hcall : ∀ d, Lawful .expression (Eval.makeDeferredCall E d)) :
    Lawful (.frame env) (Eval.leaveFrame E env code) := by
  intro c k h hk hpre
  obtain ⟨hready, g, rest, rfl, hg⟩ := hpre
  have henter := enter hk hready hg
  have hbody_pre : (Role.statement [g :: rest]).Pre { c with frame := some g }
      (k.during g c.frame ⟨.body c.frame [], none⟩) (h.note (.entered g c.frame)) := by
    refine ⟨g, c.frame, [], rfl, during_self _ _, fun env henv => ?_⟩
    cases List.mem_singleton.mp henv
    exact .frame (henter.holds.framed (during_self _ _))
  unfold Eval.leaveFrame
  simp only [Eval.bind_apply, Eval.currentFrame_apply, Eval.note_apply, Eval.within_apply,
    Eval.attempt_apply, Res.bind, List.headD_cons]
  refine Protocol.Follows.after henter ?_
  have hrun := (hcode _ _ _ henter.holds hbody_pre).attempt
  refine Protocol.Follows.bind (Q := fun o k' => (∃ last, o = .ok last) ∧
    k' = k.during g c.frame ⟨.exit c.frame [], none⟩) ?_ ?_ ?_
  · refine hrun.bind (fun outcome k' h' _ hk' hpost => ?_) fun s k' hpost => ?_
    · obtain ⟨outcome', -, g', caller, ds, ds', hframe, hds, rfl⟩ := hpost
      cases hframe
      rw [during_self] at hds
      cases hds
      rw [during_set] at hk' ⊢
      obtain ⟨hdefers, hstop⟩ := stop rest hk' (during_self _ _)
      rw [during_set] at hstop
      have hdue := hstop.trans (.told (.due g ds') hstop.holds fun _ => id)
      have hrest := runDefers hcall (c := { c with frame := some g }) rfl ds'.reverse outcome
        hdue.holds (during_self _ _)
      rw [during_set] at hrest
      refine Protocol.Follows.after hdue ?_
      rw [show Eval.takeDefers (g :: rest) _ h' = .value ds' _ from
        congrArg (fun ds => Res.value ds _) hdefers]
      exact hrest
    · obtain ⟨outcome', heq, -⟩ := hpost
      cases heq
  · rintro outcome k' h' - hk' ⟨-, rfl⟩
    refine Protocol.Follows.after (leave hk' hready hg) ?_
    cases outcome with
    | ok flow =>
        exact ⟨k, .refl (leave hk' hready hg).holds, rfl⟩
    | error s =>
        exact ⟨k, .refl (leave hk' hready hg).holds, rfl⟩
  · rintro s k' ⟨⟨last, heq⟩, -⟩
    cases heq

end Visit

/-! ### All that is composed -/

/-- What the engine runs is lawful, so what is composed of it is. -/
theorem Lawful.of_composed
    {E : Engine} {r : Role} {α : Type} {x : Eval α}
    (hE : ∀ {β : Type} (t : Task β), Lawful t.role (E.run t))
    (hx : Composed E r x) :
    Lawful r x := by
  induction hx with
  | pure a =>
      exact pure a
  | bind _ _ ihx ihf =>
      exact bind ihx ihf
  | plain _ ih =>
      exact plain ih
  | thrown e =>
      exact throwValue e
  | fault c =>
      exact fault c
  | giveUp =>
      exact giveUp
  | change hf =>
      exact change hf
  | await hstep =>
      exact await hstep
  | yield =>
      exact yield
  | join id =>
      exact join id
  | spawn body env =>
      exact spawn body env
  | called _ ih =>
      exact invoke _ ih
  | built _ ih =>
      exact bind (note fun _ => id) fun _ => afterwards ih (.endConstruction _)
  | mapFault _ _ ih =>
      exact mapFault ih
  | diverting _ _ ihx ihhandler =>
      exact diverting ihx ihhandler
  | afterwards _ hf ih =>
      exact afterwards ih hf
  | block henv _ ih =>
      exact block henv ih
  | body _ ih =>
      exact tracked ih
  | openFrame _ ih =>
      exact openFrame ih
  | openFields _ ih =>
      exact openFrame fun scope => plain (ih scope)
  | leave _ _ ihcode ihcall =>
      exact Visit.leaveFrame ihcode ihcall
  | @exec envs env s henv =>
      intro c k h hk hpre
      obtain ⟨f, caller, ds, hframe, hf, henvs⟩ := hpre
      have hlawful : Lawful (.statement [env]) (E.run (.exec s env)) := hE (.exec s env)
      refine hlawful c k h hk ⟨f, caller, ds, hframe, hf, fun env' hmem => ?_⟩
      cases List.mem_singleton.mp hmem
      exact henvs _ henv
  | eval e env =>
      exact hE (.eval e env)
  | call callee args typeArgs site =>
      exact hE (.call callee args typeArgs site)
  | text v =>
      exact hE (.text v)

/-- What operations preserve: the protocol of frames, in the role of each. -/
theorem Lawful.preserved :
    Preserved fun r _ x => Lawful r x where
  giveUp := giveUp
  composed hE _ _ _ hx := of_composed hE hx
  tracked := tracked
  mapFault _ hx := mapFault hx
  defer _ d := bind (defer d List.mem_cons_self) fun _ => pure _
  catching := catching
  withCleanup := withCleanup

/-- Whatever the engine runs is lawful. -/
theorem lawful_run
    (fuel : Nat) {α : Type} (t : Task α) :
    Lawful t.role (Eval.run fuel t) := by
  exact Lawful.preserved.run fuel t

/-- What is composed of tasks of the engine is lawful. -/
theorem lawful_composed
    {r : Role} {α : Type} {x : Eval α}
    (hx : Composed Eval.engine r x) :
    Lawful r x := by
  exact .of_composed (lawful_run Eval.fullFuel) hx

end ScriptEngine
