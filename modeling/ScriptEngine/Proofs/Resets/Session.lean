import ScriptEngine.Proofs.Faults.Session
import ScriptEngine.Proofs.Resets.Threads

/-!
# Sessions after a reset

A session answers requests: it runs the text of a program, looks up a name of the main program, or
tells what is registered under a name.  After a reset it answers as if it were fresh, whatever was
done with it before, if its threads have all ended (`answers_reset_eq_startIn`).

**Numbers.** What has an identity is known by a number, and threads and channels show theirs.  A
process goes on counting when a session is reset, and it does when another one starts.  A program
can compute with the numbers that it is shown, so answers are not the same up to numbers only.  A
reset session is compared with one that starts in the same process: `startIn` takes over how far has
been counted, by which two sessions give the same thing the same number, and nothing else.

Both sessions keep in step.  The heap of the fresh one is that of the reset one without what is
older than the reset (`Alike`), and every request keeps it so.
-/

namespace ScriptEngine

namespace Session

/-! ### Requests and answers -/

/-- What a session may be asked for. -/
inductive Request
  /-- To run the text of a program. -/
  | run (source : String)
  /-- For the value of a name in the scope of the main program. -/
  | global (name : String)
  /-- For all the types that are registered. -/
  | registry
  | reset

/-- A value as a session shows it. -/
structure Shown where
  value : Value
  type : String
  text : String

inductive Answer
  /-- What a program came to, and what was printed. -/
  | ran (result : Except Failure Shown) (output : String)
  | global (found : Option Shown)
  | registry (types : Registry)
  | done

def shown (s : Session) (v : Value) : Shown := ⟨v, s.heap.typeName v, s.heap.display v⟩

def answer (s : Session) : Request → Answer × Session
  | .run source =>
    let r := s.run source
    let o := r.2.takeOutput
    (.ran (r.1.map o.2.shown) o.1, o.2)
  | .global name => (.global ((s.lookup name).map s.shown), s)
  | .registry => (.registry s.heap.registry, s)
  | .reset => (.done, s.reset)

/-- The answers to requests, one after another. -/
def answers (s : Session) : List Request → List Answer
  | [] => []
  | r :: rs => (s.answer r).1 :: (s.answer r).2.answers rs

/-- All threads of a session have ended, and what they have printed has been taken. -/
structure Idle (s : Session) : Prop where
  waiting : s.waiting = []
  jobs : s.heap.jobs = []
  output : s.heap.output = ""

end Session

/-! ### Fresh sessions of a process -/

/-- How far a process has counted. -/
structure Counters extends Numbers where
  fresh : Nat
  clock : Nat

/-- The heap in which nothing exists, in a process that has given out numbers before. -/
def Heap.emptyIn (n : Counters) : Heap where
  scopes := ⟨.replicate n.scopes default⟩
  arrays := .replicate n.arrays #[]
  maps := .replicate n.maps default
  objects := .replicate n.objects default
  collections := .replicate n.collections default
  hub := ⟨.replicate n.channels default, .replicate n.wakers false⟩
  futures := .replicate n.futures default
  threads := .replicate n.threads none
  statics := .replicate n.statics default
  registry := ∅
  output := ""
  clock := n.clock
  fresh := n.fresh
  jobs := []
  declared := []
  past := .start

namespace Session

/-- A fresh session in a process that has given out numbers before. -/
def startIn (n : Counters) (limit : Nat) : Session :=
  let r := openScopes (.emptyIn n)
  ⟨r.2, r.1, limit, []⟩

/-- In a new process it is the fresh session. -/
example (limit : Nat) : startIn ⟨⟨0, 0, 0, 0, 0, 0, 0, 0, 0, 0⟩, 0, 0⟩ limit = start limit := rfl

end Session

/-- How many numbers of each kind a heap has given out. -/
def Heap.numbers (h : Heap) : Numbers where
  scopes := h.scopes.items.size
  arrays := h.arrays.size
  maps := h.maps.size
  objects := h.objects.size
  collections := h.collections.size
  channels := h.hub.channels.size
  wakers := h.hub.wakers.size
  futures := h.futures.size
  threads := h.threads.size
  statics := h.statics.size

/-- The moment at which a heap has come to be as it is. -/
noncomputable def Heap.now (h : Heap) : Epoch :=
  ⟨h.numbers, h.notes.length, h.declared.length⟩

/-- Nothing has been noted since now. -/
theorem notedSince_now
    (h : Heap) :
    notedSince h.now h.past = .start := by
  have hnone : h.past.states.length - h.now.events = 0 := Nat.sub_self _
  rw [notedSince, hnone, List.take_zero, List.map_nil]
  rfl

/-- How far the process of a session has counted. -/
def Session.counters (s : Session) : Counters := ⟨s.heap.numbers, s.heap.fresh, s.heap.clock⟩

variable {t : Epoch}

/-! ### Running programs -/

/-- Changes one after another. -/
theorem Yields.bind
    {α β : Type} {P : α → Prop} {Q : β → Prop} {f : Heap → α × Heap} {g : α → Heap → β × Heap}
    (hf : Yields t P f) (hg : ∀ a, P a → Yields t Q (g a)) :
    Yields t Q fun h => g (f h).1 (f h).2 := by
  intro h hh
  obtain ⟨hsame, hrenewed, ha⟩ := hf h hh
  dsimp only
  rw [hsame]
  exact hg _ ha _ hrenewed

/-- A computation that is left to itself stops with the same heap. -/
theorem Parallel.left
    {α : Type} {P : α → Prop} {r r' : Res α} {h : Heap} (hr : Parallel t P r r')
    (hh : h.Renewed t) :
    r'.heap?.getD (h.forget t) = (r.heap?.getD h).forget t ∧ (r.heap?.getD h).Renewed t := by
  cases hr with
  | value _ hh => exact ⟨rfl, hh⟩
  | raise _ hh => exact ⟨rfl, hh⟩
  | blocked _ hh _ => exact ⟨rfl, hh⟩
  | outOfFuel => exact ⟨rfl, hh⟩

theorem Parallel.heap?
    {α : Type} {P : α → Prop} {r r' : Res α} {h : Heap} (hr : Parallel t P r r')
    (hh : r.heap? = some h) :
    r'.heap? = some (h.forget t) := by
  cases hr with
  | outOfFuel => cases hh
  | value _ _ | raise _ _ | blocked _ _ _ =>
      cases hh
      rfl

/-- Computations in step come to the same moments. -/
theorem Parallel.reaches
    {α : Type} {P : α → Prop} {limit : Nat} {r r₁ r' : Res α} {ws ws₁ ws' : List Waiting}
    (hr : Parallel t P r r') (hws : Waiting.AllAlike t ws ws')
    (hreach : Eval.Reaches limit r ws r₁ ws₁) :
    ∃ r₁' ws₁', Eval.Reaches limit r' ws' r₁' ws₁' ∧ Parallel t P r₁ r₁' ∧
      Waiting.AllAlike t ws₁ ws₁' := by
  induction hreach with
  | refl =>
      exact ⟨r', ws', .refl, hr, hws⟩
  | @turn _ _ _ _ b h resume _ hturn ih =>
      obtain ⟨r₁', ws₁', hreach', hr₁, hws₁⟩ := ih hws
      cases hr₁ with
      | @blocked _ _ _ resume' hb hh hresume =>
          have hturned := Turned.turn (E := Eval.engine) limit hb hh hresume hws₁
          rw [hturn] at hturned
          generalize hturn' : Eval.turn Eval.engine limit b (h.forget t) resume' ws₁' = o at hturned
          cases hturned with
          | on hr₂ hws₂ =>
              exact ⟨_, _, .turn hreach' hturn', hr₂, hws₂⟩

namespace Session

variable {env : Env}

theorem runIn_oblivious
    (henv : Recent t env) (body : List Stmt) :
    Oblivious t (runIn env body) (Recent t) := by
  exact (Oblivious.leaveFrame henv (.block body)).bind fun flow hflow => .resultOf hflow

theorem load_overlooks
    (henv : Recent t env) (source : Except SourceError Program) :
    Overlooks t (load env · source) := by
  intro h hh
  cases source with
  | error e =>
      exact ⟨rfl, hh⟩
  | ok p =>
      exact (runIn_oblivious henv p.statements _ h hh).left hh

/-! ### Scopes of sessions -/

theorem recent_globalValues : ∀ g ∈ globalValues, Recent t g.2 := by
  intro g hg
  rcases List.mem_append.mp hg with hfunction | hmodule
  · obtain ⟨f, hf, rfl⟩ := List.mem_map.mp hfunction
    have hall : ∀ f ∈ globalFunctions, Recent t f := by
      simp [globalFunctions, Recent, Dated.recent, Native.recentSince]
    exact hall f hf
  · have hall : ∀ g ∈ [("Sys", Value.module .sys), ("Math", .module .math)], Recent t g.2 := by
      simp
    exact hall g hmodule

theorem bindAll_overlooks
    {globals : List (String × Value)} (henv : Recent t env)
    (hglobals : ∀ g ∈ globals, Recent t g.2) :
    Overlooks t fun h =>
      { h with scopes :=
          globals.foldl (fun s g => s.define env g.1 ⟨g.2, .constBinding, none⟩) h.scopes } := by
  induction globals with
  | nil =>
      exact .refl
  | cons g globals ih =>
      obtain ⟨hg, hglobals⟩ := List.forall_mem_cons.mp hglobals
      exact (Overlooks.define henv g.1 hg).comp (ih hglobals)

theorem openOuter_yields : Yields t (Recent t) openOuter := by
  exact Yields.root.further fun env henv => bindAll_overlooks henv recent_globalValues

/-- Whatever prelude is loaded. -/
theorem openMain_yields
    (prelude : Except SourceError Program) :
    Yields t (Recent t) fun h =>
      openMain (openOuter h).1 (load (openOuter h).1 (openOuter h).2 prelude) := by
  have hloaded := openOuter_yields.further fun env henv => load_overlooks (t := t) henv prelude
  exact hloaded.bind fun env henv => Yields.enter henv "<main>" recent_none

theorem openScopes_yields : Yields t (Recent t) openScopes := by
  exact openMain_yields (Program.read preludeSource)

/-! ### Two sessions in step -/

/-- A session is another one without what is older than an epoch. -/
structure Alike (t : Epoch) (s s' : Session) : Prop where
  heap : s'.heap = s.heap.forget t
  renewed : s.heap.Renewed t
  env : s'.env = s.env
  recent : Recent t s.env
  limit : s'.limit = s.limit
  waiting : Waiting.AllAlike t s.waiting s'.waiting

/-- What a program came to mentions nothing old. -/
def Settled (t : Epoch) : Except Failure Value → Prop
  | .ok v => Recent t v
  | .error _ => True

theorem ofSignal_forget
    {h : Heap} {s : Signal} (hh : h.Renewed t) (hs : Recent t s) :
    Failure.ofSignal (h.forget t) s = Failure.ofSignal h s := by
  cases s with
  | thrown e =>
      rw [Failure.ofSignal, Failure.ofSignal, Heap.exceptionMessage_forget hh hs]
  | fault f =>
      rfl

namespace Alike

variable {s s' : Session}

theorem runProgram
    (hs : Alike t s s') (p : Program) :
    (s'.runProgram p).1 = (s.runProgram p).1 ∧ Settled t (s.runProgram p).1 ∧
      Alike t (s.runProgram p).2 (s'.runProgram p).2 := by
  have hfirst := runIn_oblivious hs.recent p.statements (.ofLimit s.limit) s.heap hs.renewed
  have hdriven := Driven.drive (E := Eval.engine) s.limit Eval.fullFuel hfirst hs.waiting
  unfold Session.runProgram
  rw [hs.env, hs.limit, hs.heap]
  dsimp only
  generalize Eval.drive Eval.engine s.limit Eval.fullFuel _ s.waiting = o at hdriven ⊢
  generalize Eval.drive Eval.engine s.limit Eval.fullFuel _ s'.waiting = o' at hdriven ⊢
  cases hdriven with
  | endless =>
      exact ⟨rfl, trivial, hs⟩
  | @ended o ws ws' h ho hws hh =>
      have halike : Alike t { s with heap := h, waiting := ws }
          { s with heap := h.forget t, waiting := ws' } :=
        ⟨rfl, hh, rfl, hs.recent, rfl, hws⟩
      cases o with
      | ok v =>
          exact ⟨rfl, ho, halike⟩
      | error signal =>
          exact ⟨congrArg Except.error (ofSignal_forget hh ho), trivial, halike⟩

theorem run
    (hs : Alike t s s') (source : String) :
    (s'.run source).1 = (s.run source).1 ∧ Settled t (s.run source).1 ∧
      Alike t (s.run source).2 (s'.run source).2 := by
  unfold Session.run
  cases Program.read source with
  | ok p =>
      exact hs.runProgram p
  | error e =>
      exact ⟨rfl, trivial, hs⟩

theorem takeOutput
    (hs : Alike t s s') :
    s'.takeOutput.1 = s.takeOutput.1 ∧ Alike t s.takeOutput.2 s'.takeOutput.2 := by
  unfold Session.takeOutput
  rw [hs.heap]
  exact ⟨rfl, { hs with heap := rfl, renewed := { hs.renewed with } }⟩

theorem shown
    {v : Value} (hs : Alike t s s') (hv : Recent t v) :
    s'.shown v = s.shown v := by
  rw [Session.shown, Session.shown, hs.heap, Heap.typeName_forget hs.renewed hv,
    Heap.display_forget hs.renewed hv]

theorem lookup
    (hs : Alike t s s') (name : String) :
    s'.lookup name = s.lookup name ∧ Recent t (s.lookup name) := by
  rw [Session.lookup, Session.lookup, hs.heap, hs.env]
  have hscopes : s.heap.scopes.Renewed t := hs.renewed.scopes
  exact ⟨Scopes.lookup_forget hs.recent name, hscopes.lookup hs.recent name⟩

/-- The scopes of a main program are opened anew. -/
theorem opened
    {h : Heap} {ws ws' : List Waiting} (limit : Nat) (hh : h.Renewed t)
    (hws : Waiting.AllAlike t ws ws') :
    Alike t ⟨(openScopes h).2, (openScopes h).1, limit, ws⟩
      ⟨(openScopes (h.forget t)).2, (openScopes (h.forget t)).1, limit, ws'⟩ := by
  obtain ⟨hsame, hrenewed, henv⟩ := openScopes_yields h hh
  rw [hsame]
  exact ⟨rfl, hrenewed, rfl, henv, rfl, hws⟩

theorem reset
    (hs : Alike t s s') :
    Alike t s.reset s'.reset := by
  have hcleared : Heap.Renewed t { s.heap with registry := ∅ } :=
    { hs.renewed with registry := recent_registry_empty }
  have hopened := opened s.limit hcleared hs.waiting
  unfold Session.reset
  rw [hs.heap, hs.limit]
  exact hopened

/-- Sessions in step give the same answer, and stay in step. -/
theorem answer
    (hs : Alike t s s') (r : Request) :
    (s'.answer r).1 = (s.answer r).1 ∧ Alike t (s.answer r).2 (s'.answer r).2 := by
  cases r with
  | run source =>
      obtain ⟨hresult, hsettled, hran⟩ := hs.run source
      obtain ⟨houtput, htaken⟩ := hran.takeOutput
      refine ⟨?_, htaken⟩
      unfold Session.answer
      dsimp only
      rw [hresult, houtput]
      cases hv : (s.run source).1 with
      | ok v =>
          rw [hv] at hsettled
          rw [Except.map, Except.map, htaken.shown hsettled]
      | error failure =>
          rw [Except.map, Except.map]
  | global name =>
      obtain ⟨hsame, hrecent⟩ := hs.lookup name
      refine ⟨?_, hs⟩
      rw [Session.answer, Session.answer, hsame]
      cases hv : s.lookup name with
      | none =>
          rw [Option.map_none, Option.map_none]
      | some v =>
          rw [Option.map_some, Option.map_some, hs.shown (hrecent v hv)]
  | registry =>
      refine ⟨?_, hs⟩
      rw [Session.answer, Session.answer, hs.heap]
      rfl
  | reset =>
      simp only [Session.answer, true_and]
      exact hs.reset

theorem answers
    (hs : Alike t s s') (requests : List Request) :
    s'.answers requests = s.answers requests := by
  induction requests generalizing s s' with
  | nil =>
      rfl
  | cons r rs ih =>
      obtain ⟨hsame, hnext⟩ := hs.answer r
      rw [Session.answers, Session.answers, hsame, ih hnext]

end Alike

/-! ### Resets -/

/-- An array without all that is in it. -/
theorem forgetFirst_size
    {α : Type} {d : α} (xs : Array α) :
    forgetFirst xs.size d xs = .replicate xs.size d := by
  refine Array.ext_getElem? fun i => ?_
  rw [getElem?_forgetFirst, Array.getElem?_replicate]
  split
  · next hi => simp [hi]
  · next hi => simp [Nat.not_lt.mp hi]

/-- Nothing is left of a heap in which all is old but how far it has counted, and what it has
printed. -/
theorem forget_now
    {s : Session} (hjobs : s.heap.jobs = []) :
    Heap.forget s.heap.now { s.heap with registry := ∅ } =
      { Heap.emptyIn s.counters with output := s.heap.output } := by
  have hmemory : Memory.forget s.heap.now { s.heap.toMemory with registry := ∅ } =
      ({ Heap.emptyIn s.counters with output := s.heap.output } : Heap).toMemory := by
    simp only [Memory.forget, Scopes.forget, Hub.forget, Heap.now, Heap.numbers, Heap.emptyIn,
      counters, forgetFirst_size, hjobs, Nat.sub_self, List.take_zero]
  exact congrArg₂ Heap.mk hmemory (notedSince_now s.heap)

theorem renewed_now
    {s : Session} (hjobs : s.heap.jobs = []) :
    Heap.Renewed s.heap.now { s.heap with registry := ∅ } where
  scopes := .of_size _ _
  arrays := .of_size _ _
  maps := .of_size _ _
  objects := .of_size _ _
  collections := .of_size _ _
  channels := .of_size _ _
  wakers := Nat.le_refl _
  futures := .of_size _ _
  threads := .of_size _ _
  statics := .of_size _ _
  registry := recent_registry_empty
  jobs := by
    rw [hjobs]
    exact recent_nil
  events := Nat.le_refl _
  declared := Nat.le_refl _

/-- A reset that finds no thread waiting leaves a session in step with one in whose process nothing
exists yet but what has been printed. -/
theorem alike_reset
    {s : Session} (hwaiting : s.waiting = []) (hjobs : s.heap.jobs = []) :
    let r := openScopes { Heap.emptyIn s.counters with output := s.heap.output }
    Alike s.heap.now s.reset ⟨r.2, r.1, s.limit, []⟩ := by
  have halike := Alike.opened s.limit (renewed_now hjobs) .nil
  rw [forget_now hjobs] at halike
  have hreset : s.reset = ⟨(openScopes { s.heap with registry := ∅ }).2,
      (openScopes { s.heap with registry := ∅ }).1, s.limit, []⟩ := by
    rw [← hwaiting]
    rfl
  rw [hreset]
  exact halike

/-- A session whose threads have all ended answers after a reset as a fresh one does, whatever was
done with it before. -/
theorem answers_reset_eq_startIn
    (s : Session) (requests : List Request) (hidle : s.Idle) :
    s.reset.answers requests = (startIn s.counters s.limit).answers requests := by
  have halike := alike_reset hidle.waiting hidle.jobs
  rw [hidle.output] at halike
  exact (halike.answers requests).symm

/-- A session that has declared a class under the name of an exception class, bound a name and the
name of a builtin function, and thrown an instance of the class. -/
def worn : Session :=
  let s : Span := default
  let d : ClassDecl Expr Stmt :=
    { name := "IndexError", typeParams := [], parent := none, interfaces := [], isSealed := false
      isAbstract := false, permits := [], fields := [], methods := [], constructors := [], span := s }
  let thrown : Expr := .call (.identifier "IndexError" s) [] [] s
  ((bare 8).runProgram
    ⟨[.classDecl d, .variable .letBinding "x" none (some (.array [.int 1 s] s)) s,
      .variable .varBinding "len" none (some (.int 2 s)) s, .throw thrown s], s⟩).2

/-- What it has bound and declared is there before the reset.  Afterwards it answers as a session in
which this never was. -/
theorem answers_reset_worn :
    worn.Idle ∧ (worn.lookup "x").isSome ∧ (worn.lookup "len").isSome ∧
      worn.heap.registry.contains "IndexError" ∧
      worn.reset.answers [.run "len([1])[2]", .global "x", .global "len", .registry] =
        (startIn worn.counters worn.limit).answers
          [.run "len([1])[2]", .global "x", .global "len", .registry] := by
  have hidle : worn.Idle :=
    ⟨List.isEmpty_iff.mp (by decide +kernel), List.isEmpty_iff.mp (by decide +kernel),
      by decide +kernel⟩
  have hanswers := answers_reset_eq_startIn worn
    [.run "len([1])[2]", .global "x", .global "len", .registry] hidle
  exact ⟨hidle, by decide +kernel, by decide +kernel, by decide +kernel, hanswers⟩

end Session
end ScriptEngine
