import ScriptEngine.Proofs.Frames.Session
import ScriptEngine.Proofs.Stores.Statements

/-!
# The stores of sessions

Whatever was done with a session, at every moment of a further run the heap fits a world, and from one
moment to the next instances and static fields go on from what they were.

At every moment what the threads hold agrees with one world and the heap, and what the jobs know that
are yet to begin belongs to that world.  A thread goes along a path, which leaves the others what they
hold; it ends with nothing begun that is not finished.  So the threads are a `Sharing` of the stores.

Between two programs nobody has begun anything that is not finished, apart from threads that wait.  So
the main thread of a program begins without anything, and in the end it may go away again.

**Types of stores.** At every moment of every run what is stored obeys the type that is declared for it,
where that type is scalar: the fields of instances, the components of records, static fields, the
contents of collections, and what waits in channels.  An assignment reads the type of a variable as the
code reads it that assigns, with the type parameters of its own instance.  So a variable obeys its type
only in the reading of some code, and in a reading of its own just if no type parameter is called like
the type.

**Declared types.** What is registered is lawful, between two programs and at every moment of a run.  A
type is registered in one place only, at the end of the checks of its declaration.  That the checks see
all that is in reach of the type rests on the stores: no two interfaces that a program holds anywhere
have the same number.
-/

namespace ScriptEngine

/-! ### The work of threads -/

namespace Keeps

variable {S : World} {E : Engine} [Careful E]

/-- What a thread ends with is told by the outcome of its body. -/
theorem knows_threadOutcome
    {w : World} {outcome : Except Signal Flow} (houtcome : Knows w outcome) :
    Knows w (Eval.threadOutcome outcome) := by
  unfold Eval.threadOutcome
  split
  · exact houtcome
  · exact houtcome
  · exact knows_faulted
  · exact knows_faulted
  · exact houtcome
  · exact knows_faulted

theorem endThread
    {outcome : Outcome} (id : Nat) (houtcome : Knows S outcome) :
    Keeps S (Eval.modify fun h =>
      { h with threads := h.threads.setIfInBounds id (some outcome) }) := by
  refine modifyQuietly fun w h hS _ => .setThreads h fun hh => knows_array.mpr fun o ho => ?_
  rcases Array.mem_or_eq_of_mem_setIfInBounds ho with hold | rfl
  · exact (knows_heap.mp hh).2.2.2.2.2.2.2.1.of_mem_array hold
  · exact houtcome.mono hS

theorem settleWith
    {x : Eval Settlement} (target : Nat) (hx : Keeps S x) :
    Keeps S (Eval.settleWith target x) := by
  have hsettle {T : World} {s : Settlement} (hs : Knows T s) : Keeps T (do
      let _ ← Builtin.settleFuture target s) :=
    (settleFuture target hs).skip fun _ => pure (knows_unit _) trivial
  refine (attempt hx).bind fun outcome _ => ?_
  have houtcome := Knows.self S outcome
  split
  · exact hsettle houtcome
  · exact hsettle (knows_rejection houtcome)

theorem runJob
    {j : Job} (hj : Knows S j) :
    Keeps S (Eval.runJob E j) := by
  cases j with
  | thread id body env =>
      refine (attempt (leaveFrame env (.block body))).bind fun outcome _ => ?_
      exact endThread id (knows_threadOutcome (Knows.self S outcome))
  | async body target =>
      refine settleWith target ((callback hj knows_nil).andThen fun v => ?_)
      exact pure (Knows.self S v) trivial
  | continuation k settled =>
      obtain ⟨hk, hsettled⟩ := knows_continuationJob.mp hj
      exact settleWith k.target (continueWith hk hsettled)

end Keeps

/-! ### Sharing -/

/-- What the thread of a job holds when it begins. -/
def Hold.ofJob (j : Job) : Hold := ⟨carried j, [], []⟩

/-- What several threads hold agrees with the heap, and so does what the jobs know. -/
def SharedStores (ks : List Hold) (js : List Job) (h : Heap) : Prop :=
  ∃ w, Agree ks w h ∧ Knows w js

namespace SharedStores

variable {k k' : Hold} {ks ks' : List Hold} {j : Job} {js : List Job} {h h' : Heap}

theorem holds
    (hs : SharedStores (k :: ks) js h) :
    stores.inv k h := by
  obtain ⟨w, hagree, -⟩ := hs
  exact ⟨w, hagree.head⟩

theorem perm
    (hs : SharedStores ks js h) (hperm : ks.Perm ks') :
    SharedStores ks' js h := by
  obtain ⟨w, hagree, hjs⟩ := hs
  exact ⟨w, hagree.perm hperm, hjs⟩

/-- A stretch of one thread leaves the others what they hold. -/
theorem stretch
    (hs : SharedStores (k :: ks) js h) (hmove : stores.moves k h k' h') :
    SharedStores (k' :: ks) js h' := by
  obtain ⟨w, hagree, hjs⟩ := hs
  obtain ⟨w', hp⟩ := hmove.2.2 w hagree.head
  exact ⟨w', hp.agree hagree, hjs.mono hp.grows⟩

/-- A thread goes away that has finished all it began. -/
theorem leave
    (hs : SharedStores (k :: ks) js h) (hdone : k.building = [] ∧ k.declaring = []) :
    SharedStores ks js h := by
  obtain ⟨w, hagree, hjs⟩ := hs
  exact ⟨w, hagree.of_cons hdone.1 hdone.2, hjs⟩

/-- The stores do not depend on what is left to do, nor on the time. -/
theorem quiet
    (hs : SharedStores ks js h) (hq : ∀ w, Quiet w h h') :
    SharedStores ks js h' := by
  obtain ⟨w, hagree, hjs⟩ := hs
  exact ⟨w, hagree.quiet (hq w), hjs⟩

/-- The jobs of a heap are taken to be begun. -/
theorem take_jobs
    (hs : SharedStores ks [] h) :
    SharedStores ks h.jobs { h with jobs := [] } := by
  obtain ⟨w, hagree, -⟩ := hs
  have hjobs := (knows_heap.mp hagree.fits.known).2.2.2.2.2.2.2.2.2.2
  refine ⟨w, hagree.quiet ?_, hjobs⟩
  exact .setFutures h (fun hh => (knows_heap.mp hh).2.2.2.2.2.2.1) fun _ => knows_nil

/-- The thread of a job begins. -/
theorem begin
    (hs : SharedStores ks (j :: js) h) :
    SharedStores (.ofJob j :: ks) js h := by
  obtain ⟨w, hagree, hjs⟩ := hs
  obtain ⟨hj, hrest⟩ := knows_cons.mp hjs
  exact ⟨w, hagree.cons hj rfl rfl, hrest⟩

end SharedStores

/-- How threads share the stores. -/
def sharedStores (limit : Nat) : Sharing stores limit where
  inv := SharedStores
  begun := .ofJob
  done k := k.building = [] ∧ k.declaring = []
  holds := SharedStores.holds
  perm := SharedStores.perm
  stretch := SharedStores.stretch
  leave := SharedStores.leave
  take hs := ⟨.of_eq rfl rfl, hs.take_jobs⟩
  clock {k ks h} hs t := ⟨.of_eq rfl rfl, hs.quiet fun w => .setClock w h t⟩
  begin := SharedStores.begin
  work {j ks js h} hs := by
    have hjob : Keeps (carried j) (Eval.runJob Eval.engine j) := .runJob Set.Subset.rfl
    refine (hjob (.ofLimit limit) (.ofJob j) h Set.Subset.rfl hs.begin.holds).weaken
      fun o k hends => ?_
    exact ⟨hends.building, hends.declaring⟩

/-- At every moment of a run the heap fits a world. -/
theorem Steady.fits
    {limit : Nat} {α : Type} {Q : Protocol.Goal Hold α} {r : Res α} {ws : List Waiting}
    {h : Heap} (hsteady : Steady (sharedStores limit) Q r ws) (hh : r.heap? = some h) :
    ∃ w, Fits w h := by
  obtain ⟨k, ks, lost, -, ⟨w, hagree, -⟩, -⟩ := hsteady h hh
  exact ⟨w, hagree.fits⟩

/-! ### A main thread comes and goes -/

namespace SharedStores

variable {k : Hold} {ks : List Hold} {js : List Job} {h : Heap}

/-- A thread comes in that has begun nothing. -/
theorem cons_idle
    (hs : SharedStores ks js h) :
    SharedStores (.idle :: ks) js h := by
  obtain ⟨w, hagree, hjs⟩ := hs
  exact ⟨w, hagree.cons (Set.empty_subset w) rfl rfl, hjs⟩

/-- A thread has come as far as it can, and may never go on. -/
theorem ended
    {α : Type} {Q : Protocol.Goal Hold α} {r : Res α}
    (hs : SharedStores (k :: ks) js h) (hr : stores.Follows Q r k h) :
    h.Continues (r.heap?.getD h) ∧ ∃ k', SharedStores (k' :: ks) js (r.heap?.getD h) := by
  cases r with
  | value a h₁ =>
      obtain ⟨k', hmove, -⟩ := hr
      exact ⟨stores.moves_along hmove, k', hs.stretch hmove⟩
  | raise s h₁ =>
      obtain ⟨k', hmove, -⟩ := hr
      exact ⟨stores.moves_along hmove, k', hs.stretch hmove⟩
  | blocked b h₁ resume =>
      obtain ⟨k', hmove, -⟩ := hr
      exact ⟨stores.moves_along hmove, k', hs.stretch hmove⟩
  | outOfFuel =>
      exact ⟨.of_eq rfl rfl, k, hs⟩

end SharedStores

/-! ### Where nothing exists -/

/-- Nothing exists in a heap, though numbers may have been given out. -/
structure Heap.Blank (h : Heap) : Prop where
  scopes : ∀ s ∈ h.scopes.items, s = default
  arrays : ∀ xs ∈ h.arrays, xs = #[]
  maps : ∀ m ∈ h.maps, m = default
  objects : ∀ o ∈ h.objects, o = default
  collections : ∀ c ∈ h.collections, c = default
  channels : ∀ c ∈ h.hub.channels, c = default
  futures : ∀ f ∈ h.futures, f = default
  threads : ∀ o ∈ h.threads, o = none
  statics : ∀ s ∈ h.statics, s = default
  registry : h.registry = ∅
  jobs : h.jobs = []

theorem Heap.Blank.empty : Heap.empty.Blank := by
  constructor <;> simp [Heap.empty, Hub.empty, default]

/-- An instance of which nothing is known yet is in a state in which it may be. -/
theorem ObjectState.proper_default : (default : ObjectState).Proper := by
  have hempty (names : Set String) : (default : ObjectState).self.FieldsObey ∅ names :=
    fun name _ v hv => nomatch hv
  exact ⟨⟨fun _ _ => hempty _, fun _ => hempty _, fun hrecord => nomatch hrecord⟩,
    fun _ => List.nil_prefix, fun _ hbuilt => nomatch hbuilt⟩

section Blank

variable {α : Type} {w : World} {h : Heap}

theorem getD_of_forall_eq
    {as : Array α} {d : α} (has : ∀ a ∈ as, a = d) (i : Nat) :
    as.getD i d = d := by
  rw [Array.getD_eq_getD_getElem?]
  cases hget : as[i]? with
  | none =>
      rfl
  | some a =>
      exact has a (Array.mem_of_getElem? hget)

theorem knows_of_forall_eq
    [Carrier α] {as : Array α} {d : α} (has : ∀ a ∈ as, a = d) (hd : Knows w d) :
    Knows w as := by
  exact knows_array.mpr fun a ha => has a ha ▸ hd

/-- What is in its first state has never been otherwise. -/
theorem Orderly.of_forall_eq
    {R : α → α → Prop} {P : α → Prop} {ts : Array (Traced α)} {a : α}
    (hts : ∀ t ∈ ts, t = .new a) (ha : P a) :
    Orderly R P ts := by
  refine ⟨fun t ht => ?_, fun t ht => ?_⟩
  · rw [hts t ht]
    exact Traced.kept_new R a
  · rw [hts t ht]
    simpa using ha

theorem Heap.Blank.known
    (hh : h.Blank) (w : World) :
    Knows w h := by
  have hnone : Knows w (#[] : Array Value) := knows_array.mpr nofun
  refine knows_heap.mpr ⟨knows_of_forall_eq hh.scopes ?_, knows_of_forall_eq hh.arrays hnone,
    knows_of_forall_eq hh.maps KeyedMap.knows_empty, knows_of_forall_eq hh.objects knows_assoc_empty,
    knows_of_forall_eq hh.collections (knows_items.mpr hnone),
    knows_of_forall_eq hh.channels knows_nil, knows_of_forall_eq hh.futures ?_,
    knows_of_forall_eq hh.threads knows_none,
    knows_of_forall_eq hh.statics (knows_statics.mpr ⟨knows_assoc_empty, knows_nil⟩), ?_, ?_⟩
  · exact knows_scope.mpr ⟨knows_assoc_empty, knows_none⟩
  · simp [default]
  · rw [hh.registry]
    exact knows_registry_empty
  · rw [hh.jobs]
    exact knows_nil

/-- Where nothing exists everything fits. -/
theorem Heap.Blank.fits
    (hh : h.Blank) :
    Fits ∅ h where
  known := hh.known ∅
  bound {id name b} hb := by
    rw [Scopes.binding?, Scopes.scope, getD_of_forall_eq hh.scopes id] at hb
    cases hb
  frames hr := hr.elim
  objects := ⟨fun ho => ho.elim, fun ho => ho.elim,
    .of_forall_eq hh.objects ObjectState.proper_default⟩
  owners id hfilled := by
    rw [Heap.object, getD_of_forall_eq hh.objects id] at hfilled
    exact absurd rfl hfilled
  collections := ⟨fun hc => hc.elim, fun hc => hc.elim, fun hc => hc.elim⟩
  channels := ⟨fun hc => hc.elim, fun hc => hc.elim, fun hc => hc.elim⟩
  statics := .of_forall_eq hh.statics fun name slot hslot => nomatch hslot
  numbered id s hmem := by
    rw [getD_of_forall_eq hh.statics id] at hmem
    rw [show (default : Traced Statics).states = [default] from Traced.states_new _,
      List.mem_singleton] at hmem
    exact hmem ▸ Statics.numbered_default ∅ id
  interfaces := ⟨fun hi => hi.elim, fun i hi => hi.elim⟩
  classes := ⟨fun hc => hc.elim, fun hc => hc.elim, fun hc => hc.elim⟩
  names := ⟨fun ht => ht.elim, fun _ _ _ ht => ht.elim⟩
  registry := by
    rw [hh.registry]
    exact Registry.lawful_empty

end Blank

/-- Nobody holds anything where nothing exists. -/
theorem SharedStores.of_blank
    {h : Heap} (hh : h.Blank) :
    SharedStores [] [] h := by
  exact ⟨∅, ⟨hh.fits, by simp, by simp, by simp, by simp, by simp⟩, knows_nil⟩

namespace Session

variable {ks : List Hold} {h : Heap}

/-! ### Programs -/

theorem runIn_keeps
    (env : Env) (body : List Stmt) :
    Keeps ∅ (runIn env body) := by
  refine (Keeps.leaveFrame env (.block body)).andThen fun flow => ?_
  exact Keeps.resultOf (Knows.self ∅ flow)

/-- The main thread of a program begins with nothing, and ends what it begins. -/
theorem runIn_ends
    (env : Env) (body : List Stmt) (limit : Nat) (hs : SharedStores (.idle :: ks) [] h) :
    stores.Follows (fun _ k => k.building = [] ∧ k.declaring = [])
      (runIn env body (.ofLimit limit) h) .idle h := by
  refine (runIn_keeps env body _ _ h (Set.empty_subset _) hs.holds).weaken fun o k ho => ?_
  exact ⟨ho.building, ho.declaring⟩

/-! ### The scopes of a session -/

/-- The builtin functions are bound in a scope. -/
theorem bind_globals_stores
    (globals : List (String × Value)) (env : Env) (s : Scopes)
    (hglobals : ∀ g ∈ globals, ∀ w, Knows w g.2) (hs : SharedStores ks [] { h with scopes := s }) :
    SharedStores ks [] { h with scopes :=
      (globals.foldl (fun s g => s.define env g.1 ⟨g.2, .constBinding, none⟩) s) } := by
  induction globals generalizing s with
  | nil =>
      exact hs
  | cons g globals ih =>
      refine ih _ (fun g' hg' => hglobals g' (List.mem_cons_of_mem _ hg')) ?_
      refine hs.quiet fun w => Quiet.define { h with scopes := s } env g.1 ?_ fun t ht => ?_
      · exact hglobals g List.mem_cons_self w
      · cases ht

theorem knows_globalValue
    {g : String × Value} (hg : g ∈ globalValues) (w : World) :
    Knows w g.2 := by
  simp only [globalValues, List.mem_append, List.mem_map, List.mem_cons, List.not_mem_nil,
    or_false] at hg
  rcases hg with ⟨f, -, rfl⟩ | rfl | rfl
  · exact knows_vnative
  · exact knows_vmodule
  · exact knows_vmodule

/-- The outermost scope is opened, with the builtin functions. -/
theorem openOuter_stores
    (hs : SharedStores ks [] h) :
    h.Continues (openOuter h).2 ∧ SharedStores ks [] (openOuter h).2 := by
  have hroot : SharedStores ks [] { h with scopes := h.scopes.root.2 } :=
    hs.quiet fun w => .openScope h rfl (by simp)
  have hvalues (g : String × Value) (hg : g ∈ globalValues) := knows_globalValue hg
  -- the builtin functions are not to be bound one by one
  rw [openOuter]
  generalize globalValues = globals at hvalues ⊢
  refine ⟨.of_eq rfl rfl, ?_⟩
  exact bind_globals_stores globals h.scopes.root.1 h.scopes.root.2 hvalues hroot

/-- The scope of a main program is opened. -/
theorem openMain_stores
    (env : Env) (hs : SharedStores ks [] h) :
    h.Continues (openMain env h).2 ∧ SharedStores ks [] (openMain env h).2 := by
  exact ⟨.of_eq rfl rfl, hs.quiet fun w => .enter h env "<main>" knows_none⟩

/-- A program runs as far as it can; its thread may never go on. -/
theorem load_stores
    (env : Env) (source : Except SourceError Program) (hs : SharedStores ks [] h) :
    h.Continues (load env h source) ∧ ∃ k, SharedStores (k :: ks) [] (load env h source) := by
  cases source with
  | error e =>
      exact ⟨.of_eq rfl rfl, _, hs.cons_idle⟩
  | ok p =>
      exact hs.cons_idle.ended (runIn_ends env p.statements defaultLimit hs.cons_idle)

/-- Opens the scopes of a session with a prelude. -/
def openWith (prelude : Except SourceError Program) (h : Heap) : Env × Heap :=
  let outer := openOuter h
  openMain outer.1 (load outer.1 outer.2 prelude)

/-- The scopes of a session are opened; the thread of the prelude may never go on. -/
theorem openWith_stores
    (prelude : Except SourceError Program) (hs : SharedStores ks [] h) :
    h.Continues (openWith prelude h).2 ∧ ∃ k, SharedStores (k :: ks) [] (openWith prelude h).2 := by
  obtain ⟨hgoes₁, hs₁⟩ := openOuter_stores hs
  unfold openWith
  generalize openOuter h = outer at hgoes₁ hs₁ ⊢
  obtain ⟨hgoes₂, k, hs₂⟩ := load_stores outer.1 prelude hs₁
  dsimp only
  generalize load outer.1 outer.2 prelude = h₂ at hgoes₂ hs₂ ⊢
  obtain ⟨hgoes₃, hs₃⟩ := openMain_stores outer.1 hs₂
  exact ⟨(hgoes₁.trans hgoes₂).trans hgoes₃, k, hs₃⟩

/-! ### Sessions -/

/-- A fresh session with a prelude. -/
def startWith (prelude : Except SourceError Program) (limit : Nat) : Session :=
  let r := openWith prelude .empty
  ⟨r.2, r.1, limit, []⟩

/-- Between two programs the threads that wait share the stores. -/
def Stocked (s : Session) : Prop :=
  ∃ ks lost, Crew (sharedStores s.limit) s.heap s.waiting ks ∧ SharedStores (ks ++ lost) [] s.heap

namespace Stocked

variable {s : Session}

/-- Scopes are opened for a main program, whatever the prelude is and whatever threads still wait. -/
theorem of_openWith
    {limit : Nat} {ws : List Waiting} {ks lost : List Hold} {h : Heap}
    (prelude : Except SourceError Program) (hcrew : Crew (sharedStores limit) h ws ks)
    (hs : SharedStores (ks ++ lost) [] h) :
    Stocked ⟨(openWith prelude h).2, (openWith prelude h).1, limit, ws⟩ := by
  obtain ⟨hgoes, k, hs'⟩ := openWith_stores prelude hs
  generalize openWith prelude h = opened at hgoes hs' ⊢
  exact ⟨ks, k :: lost, hcrew.along hgoes, hs'.perm List.perm_middle.symm⟩

/-- Scopes are opened where nothing exists. -/
theorem of_blank
    {h : Heap} (prelude : Except SourceError Program) (limit : Nat) (hh : h.Blank) :
    Stocked ⟨(openWith prelude h).2, (openWith prelude h).1, limit, []⟩ := by
  have hshared : SharedStores ([] ++ []) [] h := .of_blank hh
  exact of_openWith prelude .nil hshared

theorem startWith
    (prelude : Except SourceError Program) (limit : Nat) :
    (Session.startWith prelude limit).Stocked := by
  exact of_blank prelude limit .empty

theorem start
    (limit : Nat) :
    (Session.start limit).Stocked := by
  exact startWith (Program.read preludeSource) limit

theorem reset
    (hs : s.Stocked) :
    s.reset.Stocked := by
  obtain ⟨ks, lost, hcrew, hshared⟩ := hs
  have hquiet (w : World) : Quiet w s.heap { s.heap with registry := ∅ } :=
    .setRegistry _ (fun _ => knows_registry_empty) fun _ => Registry.lawful_empty
  exact of_openWith (Program.read preludeSource) (hcrew.along (.of_eq rfl rfl))
    (hshared.quiet hquiet)

theorem takeOutput
    (hs : s.Stocked) :
    s.takeOutput.2.Stocked := by
  obtain ⟨ks, lost, hcrew, hshared⟩ := hs
  have hquiet (w : World) : Quiet w s.heap { s.heap with output := "" } :=
    .of_scopes_eq rfl rfl rfl rfl rfl id rfl rfl
  exact ⟨ks, lost, hcrew.along (.of_eq rfl rfl), hshared.quiet hquiet⟩

/-- A program begins with nothing. -/
theorem begin
    (hs : s.Stocked) (p : Program) :
    Steady (sharedStores s.limit) (fun _ k => k.building = [] ∧ k.declaring = [])
      (s.begin p) s.waiting := by
  obtain ⟨ks, lost, hcrew, hshared⟩ := hs
  exact .of_follows hcrew hshared.cons_idle
    (runIn_ends s.env p.statements s.limit hshared.cons_idle)

/-- The main thread of a program that has ended goes away. -/
theorem runProgram
    (hs : s.Stocked) (p : Program) :
    (s.runProgram p).2.Stocked := by
  rcases runProgram_of_steady (hs.begin p) with
    hendless | ⟨outcome, ws, h, k, ks, lost, hresult, hcrew, hshared, hdone⟩
  · rw [hendless]
    exact hs
  · rw [hresult]
    exact ⟨ks, lost, hcrew, SharedStores.leave hshared hdone⟩

/-- Whatever is done with a session, its threads share the stores. -/
theorem performs
    (hs : s.Stocked) (actions : List Action) :
    (actions.foldl perform s).Stocked := by
  induction actions generalizing s with
  | nil =>
      exact hs
  | cons a actions ih =>
      refine ih ?_
      cases a with
      | program p =>
          exact hs.runProgram p
      | reset =>
          exact hs.reset
      | takeOutput =>
          exact hs.takeOutput

theorem after
    (limit : Nat) (actions : List Action) :
    (Session.after limit actions).Stocked := by
  exact (Stocked.start limit).performs actions

end Stocked

end Session

/-! ### Readings of a type -/

/-- What the type parameters stand for in the code of some instance, or elsewhere. -/
def Heap.Reading (h : Heap) (bs : Bindings) : Prop :=
  bs = [] ∨ ∃ id < h.objects.size, ∃ name, bs = (h.object id).self.bindingsAt name

/-- What code of a world that fits reads is what the instances of the heap read. -/
theorem Meaning.reading
    {w : World} {h : Heap} {bs : Bindings} (hbs : Meaning w bs) (hfits : Fits w h) :
    h.Reading bs := by
  cases hbs with
  | plain =>
      exact .inl rfl
  | within o name ho =>
      refine .inr ⟨o.id, hfits.objects.lt ho, name, ?_⟩
      exact congrArg (·.bindingsAt name) (hfits.objects.self ho).symm

/-- The code of some instance reads a type otherwise than it is written: the class has a type parameter
that is called like a part of the type. -/
def Heap.Misreads (h : Heap) (t : TypeExpr) : Prop :=
  ∃ id < h.objects.size, ∃ name, t.substitute ((h.object id).self.bindingsAt name) ≠ t

/-! ### What obeys its type -/

/-- What a heap holds obeys the types declared for it. -/
structure Heap.ObeysTypes (h : Heap) : Prop where
  /-- A variable obeys its type in some reading. -/
  bound : ∀ id name b, h.scopes.binding? id name = some b → ∀ t, b.type = some t →
    ∃ bs, h.Reading bs ∧ Obeys b.value t bs
  /-- A variable of a scalar type conforms to the type itself, unless some code reads it otherwise. -/
  plainly : ∀ id name b, h.scopes.binding? id name = some b → ∀ t, b.type = some t →
    t.isScalar = true → h.Misreads t ∨ ∀ h' : Heap, h'.conforms b.value t [] = true
  objects : ∀ trail ∈ h.objects, ∀ state ∈ trail.states, state.Obey
  statics : ∀ trail ∈ h.statics, ∀ state ∈ trail.states, state.Obey
  collections : ∀ c, .collection c ∈ carried h → c.Takes (h.collection c.id)
  channels : ∀ id t, .channel id t ∈ carried h → ∀ v ∈ (h.hub.channel id).queue, ObeysOption v t []

/-- A reading that is as a type is written does not matter to what conforms to the type. -/
theorem Obeys.conforms
    {v : Value} {t : TypeExpr} {bs : Bindings} (hv : Obeys v t bs) (hscalar : t.isScalar = true)
    (hsame : t.substitute bs = t) (h : Heap) :
    h.conforms v t [] = true := by
  have hconforms := hv (by rwa [hsame]) h
  rw [Heap.conforms, hsame] at hconforms
  rwa [Heap.conforms, TypeExpr.substitute_nil]

theorem Fits.obeysTypes
    {w : World} {h : Heap} (hfits : Fits w h) :
    h.ObeysTypes where
  bound id name b hb t ht := by
    obtain ⟨bs, hbs, hobeys⟩ := hfits.bound hb t ht
    exact ⟨bs, hbs.reading hfits, hobeys⟩
  plainly id name b hb t ht hscalar := by
    obtain ⟨bs, hbs, hobeys⟩ := hfits.bound hb t ht
    by_cases hsame : t.substitute bs = t
    · exact .inr (hobeys.conforms hscalar hsame)
    · rcases hbs.reading hfits with rfl | ⟨id, hid, name, rfl⟩
      · exact absurd (TypeExpr.substitute_nil t) hsame
      · exact .inl ⟨id, hid, name, hsame⟩
  objects trail htrail state hstate := (hfits.objects.orderly.each trail htrail state hstate).obey
  statics := hfits.statics.each
  collections c hc := hfits.collections.takes (hfits.known hc)
  channels id t hc := hfits.channels.obey (hfits.known hc)

namespace Session

/-- How a run keeps to declared types. -/
structure KeepsTypes (s : Session) (p : Program) : Prop where
  /-- At every moment what is stored obeys the types declared for it. -/
  states : ∀ r ws h, Eval.Reaches s.limit (s.begin p) s.waiting r ws → r.heap? = some h →
    h.ObeysTypes
  /-- A body begins a thread, or it begins a call with arguments of the types of its parameters. -/
  begins : ∀ t, s.Notes p t → ∀ before n after f caller, t = before ++ n :: after →
    n.event = .entered f caller → before = [] ∨
      ∃ i args, latest none before = some (.called i args) ∧ i.Begins args f n.memory
  /-- A call that returns a value returns one of its type. -/
  returns : ∀ t, s.Notes p t → ∀ n ∈ t, ∀ i v, n.event = .answered i (.ok v) → i.Yields v
  /-- What is noted is what is done: a call that is made and not refused runs its own body. -/
  inOrder : s.KeepsOrder p

/-- In every run of every program what is stored obeys the types declared for it, and so do the arguments
and the results of calls. -/
theorem after_keepsTypes
    (limit : Nat) (actions : List Action) (p : Program) :
    (after limit actions).KeepsTypes p where
  states r ws h hreach hh := by
    have hsteady := (Stocked.after limit actions).begin p
    obtain ⟨w, hfits⟩ := (hsteady.reaches hreach).fits hh
    exact hfits.obeysTypes
  begins t ht before n after f caller hn hentered := by
    have hfollows := ht.follows hn
    unfold Note.Follows at hfollows
    rw [hentered] at hfollows
    refine hfollows.imp_left fun hfirst => latest_eq_none.mp hfirst.1
  returns t ht n hn i v hanswered := by
    obtain ⟨before, after, hsplit⟩ := List.append_of_mem hn
    have hfollows := ht.follows hsplit
    unfold Note.Follows at hfollows
    rw [hanswered] at hfollows
    exact hfollows
  inOrder := keepsOrder _ p

/-! ### The declared types -/

/-- Between two programs the declared types are lawful. -/
theorem Stocked.registry_lawful
    {s : Session} (hs : s.Stocked) :
    Registry.Lawful s.heap.registry := by
  obtain ⟨ks, lost, -, w, hagree, -⟩ := hs
  exact hagree.fits.registry

/-- At every moment of a run the declared types are lawful, and they stay so when several threads
register further ones. -/
def KeepsTypesLawful (s : Session) (p : Program) : Prop :=
  ∀ r ws h, Eval.Reaches s.limit (s.begin p) s.waiting r ws → r.heap? = some h →
    Registry.Lawful h.registry ∧ Registry.Shared.StaysLawful h.registry

theorem Stocked.keepsTypesLawful
    {s : Session} (hs : s.Stocked) (p : Program) :
    s.KeepsTypesLawful p := by
  intro r ws h hreach hh
  obtain ⟨w, hfits⟩ := ((hs.begin p).reaches hreach).fits hh
  exact ⟨hfits.registry, Registry.Shared.staysLawful hfits.registry⟩

/-- Whatever was done with a session, its declared types are lawful, and every further program keeps
them so at every moment.  So do threads that register types together, in whatever order they take the
steps, as long as they do not register a class and an interface of one name at the same time. -/
theorem after_registry_lawful
    (limit : Nat) (actions : List Action) :
    Registry.Lawful (after limit actions).heap.registry ∧
      Registry.Shared.StaysLawful (after limit actions).heap.registry ∧
      ∀ p, (after limit actions).KeepsTypesLawful p := by
  have hstocked := Stocked.after limit actions
  exact ⟨hstocked.registry_lawful, Registry.Shared.staysLawful hstocked.registry_lawful,
    hstocked.keepsTypesLawful⟩

end Session
end ScriptEngine
