import ScriptEngine.Proofs.Conduct.Session
import ScriptEngine.Proofs.Frames.Threads

/-!
# Deferred calls in sessions

A session starts, runs one program after another, and may be reset in between.  Whatever was done
with it before, at every moment of a further run the history obeys `DeferLaw`: what a visit of a
frame has deferred runs exactly once, the last deferred first, when the body has stopped and before
the caller goes on.  When the program has ended, the frame of the main program has been left.

The proof follows what is held from the start on: between two programs the session holds the frame
of the main program, which is idle, and each thread that waits holds its own frames.
-/

namespace ScriptEngine
namespace Session

/-! ### What may be done with a session -/

/-- What may be done with a session. -/
inductive Action
  | program (p : Program)
  | reset
  | takeOutput

/-- Does something with a session. -/
def perform (s : Session) : Action → Session
  | .program p => (s.runProgram p).2
  | .reset => s.reset
  | .takeOutput => s.takeOutput.2

/-- A session with which some things have been done. -/
def after (limit : Nat) (actions : List Action) : Session :=
  actions.foldl perform (start limit)

/-- The frame of the main program. -/
def mainFrame (s : Session) : ScopeId := s.env.headD 0

theorem mainFrame_of_env
    {s : Session} {f : ScopeId} {rest : Env}
    (henv : s.env = f :: rest) :
    s.mainFrame = f := by
  rw [mainFrame, henv]
  rfl

/-- A run obeys the law of deferred calls. -/
structure ObeysDeferLaw (s : Session) (p : Program) : Prop where
  /-- The law holds at every moment. -/
  always : ∀ r ws h, Eval.Reaches s.limit (s.begin p) s.waiting r ws → r.heap? = some h →
    DeferLaw h.history.reverse
  /-- A program that has ended has left its frame. -/
  ended : s.runProgram p = (.error .endless, s) ∨
    ∃ vs, (s.runProgram p).2.heap.history.reverse.filter (·.isOf s.mainFrame) =
      Visit.all s.mainFrame vs
  /-- What is noted is what is done: each statement that defers a call defers this call for the frame
  whose code it is, and nothing else does; each call that is made is evaluated by the code of its
  frame; and the body of each call runs in a frame. -/
  inOrder : s.KeepsOrder p

/-! ### What is held between programs -/

/-- A thread that runs statements in a frame that it holds. -/
theorem runIn_follows
    {k : Holding} {h : Heap} {f : ScopeId} (rest : Env) (body : List Stmt) (limit : Nat)
    (hk : Holds k h) (hf : k f = some .idle) :
    frames.Follows (fun _ k' => k' = k) (runIn (f :: rest) body (.ofLimit limit) h) k h := by
  have hready : Role.Ready (.ofLimit limit) k := fun g hg => by cases hg
  exact lawful_composed (.runIn _ body) _ k h hk ⟨hready, f, rest, rfl, hf⟩

variable {ks : List Holding} {h : Heap}

/-- A frame is opened for a thread that holds nothing else. -/
theorem opened
    (imports : Assoc String)
    (hs : Shared ks [] h) :
    h.Grows { h with scopes := (h.scopes.add ⟨∅, imports, some ⟨"<main>", none, []⟩⟩).2 } ∧
      Shared (Holding.none.set h.width (some .idle) :: ks) []
        { h with scopes := (h.scopes.add ⟨∅, imports, some ⟨"<main>", none, []⟩⟩).2 } := by
  have hnone := hs.cons_none
  have hopened := Stretch.opened (hnone.holds _ List.mem_cons_self)
    (s := ⟨∅, imports, some ⟨"<main>", none, []⟩⟩) rfl rfl
  exact ⟨hopened.grows, hnone.stretch hopened⟩

/-- The builtin functions are bound in a scope. -/
theorem bind_globals
    (globals : List (String × Value)) (env : Env) (s : Scopes)
    (hs : Shared ks [] { h with scopes := s }) :
    Heap.Grows { h with scopes := s } { h with scopes :=
        (globals.foldl (fun s g => s.define env g.1 ⟨g.2, .constBinding, none⟩) s) } ∧
      Shared ks [] { h with scopes :=
        (globals.foldl (fun s g => s.define env g.1 ⟨g.2, .constBinding, none⟩) s) } := by
  induction globals generalizing s with
  | nil =>
      exact ⟨.refl _, hs⟩
  | cons g globals ih =>
      have hcalm := Calm.define { h with scopes := s } env g.1 ⟨g.2, .constBinding, none⟩
      obtain ⟨hgrows, hrest⟩ := ih _ (hs.calm hcalm)
      have hgrows₁ := (Stretch.calm (hs.cons_none.holds _ List.mem_cons_self) hcalm).grows
      exact ⟨hgrows₁.trans hgrows, hrest⟩

/-- A program runs as far as it can; then nobody else holds its frame. -/
theorem load_shared
    {f : ScopeId} (rest : Env) (source : Except SourceError Program)
    (hs : Shared (Holding.none.set f (some .idle) :: ks) [] h) :
    h.Grows (load (f :: rest) h source) ∧ ∃ k, Shared (k :: ks) [] (load (f :: rest) h source) := by
  cases source with
  | error e =>
      exact ⟨.refl h, _, hs⟩
  | ok p =>
      have hrun := runIn_follows rest p.statements defaultLimit
        (hs.holds _ List.mem_cons_self) (Holding.set_same _ _ _)
      exact hs.ended hrun

/-- The outermost scope is opened with an idle frame. -/
theorem openOuter_shared
    (hs : Shared ks [] h) :
    h.Grows (openOuter h).2 ∧ ∃ f, (openOuter h).1 = [f] ∧
      Shared (Holding.none.set f (some .idle) :: ks) [] (openOuter h).2 := by
  obtain ⟨hgrows₁, hs₁⟩ := opened ∅ hs
  obtain ⟨hgrows₂, hs₂⟩ := bind_globals globalValues [h.width] _ hs₁
  exact ⟨hgrows₁.trans hgrows₂, h.width, rfl, hs₂⟩

/-- The scopes of a session are opened: the frame of its main program is idle. -/
theorem openScopes_shared
    (hs : Shared ks [] h) :
    h.Grows (openScopes h).2 ∧ ∃ f rest k, (openScopes h).1 = f :: rest ∧
      Shared (Holding.none.set f (some .idle) :: k :: ks) [] (openScopes h).2 := by
  obtain ⟨hgrows₁, f, houter, hs₁⟩ := openOuter_shared hs
  rw [show openScopes h = openMain (openOuter h).1
    (load (openOuter h).1 (openOuter h).2 (Program.read preludeSource)) from rfl]
  generalize openOuter h = outer at hgrows₁ houter hs₁ ⊢
  obtain ⟨env, h₁⟩ := outer
  cases houter
  obtain ⟨hgrows₂, k, hs₂⟩ := load_shared [] (Program.read preludeSource) hs₁
  generalize load [f] h₁ (Program.read preludeSource) = h₂ at hgrows₂ hs₂ ⊢
  obtain ⟨hgrows₃, hs₃⟩ := opened (h₂.scopes.importsOf [f]) hs₂
  exact ⟨(hgrows₁.trans hgrows₂).trans hgrows₃, h₂.width, [f], k, rfl, hs₃⟩

/-- Between two programs the frame of the main program is idle, and the threads wait. -/
def Tended (s : Session) : Prop :=
  ∃ f rest ks lost, s.env = f :: rest ∧ Crew (sharedFrames s.limit) s.heap s.waiting ks ∧
    Shared (Holding.none.set f (some .idle) :: (ks ++ lost)) [] s.heap

namespace Tended

variable {s : Session}

/-- Scopes are opened for a main program, whatever threads still wait. -/
theorem of_openScopes
    {limit : Nat} {ws : List Waiting} {ks lost : List Holding} {h : Heap}
    (hcrew : Crew (sharedFrames limit) h ws ks) (hs : Shared (ks ++ lost) [] h) :
    Tended ⟨(openScopes h).2, (openScopes h).1, limit, ws⟩ := by
  obtain ⟨hgrows, f, rest, k, henv, hs'⟩ := openScopes_shared hs
  generalize openScopes h = opened at hgrows henv hs' ⊢
  refine ⟨f, rest, ks, k :: lost, henv, hcrew.along hgrows, hs'.perm (.cons _ ?_)⟩
  exact List.perm_middle.symm

/-- In a fresh session nothing is held but the frame of the main program. -/
theorem start
    (limit : Nat) :
    (Session.start limit).Tended := by
  have hshared : Shared ([] ++ []) [] Heap.empty := by
    refine ⟨?_, .nil, fun f _ => ?_, ?_, ?_⟩
    · simp
    · exact ⟨Heap.history_empty ▸ .start, rfl⟩
    · simp [Heap.empty]
    · simp [Heap.empty]
  exact of_openScopes .nil hshared

/-- What was held before a reset is held for good. -/
theorem reset
    (hs : s.Tended) :
    s.reset.Tended := by
  obtain ⟨f, rest, ks, lost, henv, hcrew, hshared⟩ := hs
  have hcalm : Calm s.heap { s.heap with registry := ∅ } := .of_eq rfl rfl rfl rfl rfl
  have hgrows := (Stretch.calm (hshared.holds _ List.mem_cons_self) hcalm).grows
  exact of_openScopes (hcrew.along hgrows)
    ((hshared.calm hcalm).perm List.perm_middle.symm)

theorem takeOutput
    (hs : s.Tended) :
    s.takeOutput.2.Tended := by
  obtain ⟨f, rest, ks, lost, henv, hcrew, hshared⟩ := hs
  have hcalm : Calm s.heap { s.heap with output := "" } := .of_eq rfl rfl rfl rfl rfl
  have hgrows := (Stretch.calm (hshared.holds _ List.mem_cons_self) hcalm).grows
  exact ⟨f, rest, ks, lost, henv, hcrew.along hgrows, hshared.calm hcalm⟩

/-- A program begins in the frame that is held for it. -/
theorem begin
    (hs : s.Tended) (p : Program) :
    Steady (sharedFrames s.limit) (fun _ k => k = Holding.none.set s.mainFrame (some .idle))
      (s.begin p) s.waiting := by
  obtain ⟨f, rest, ks, lost, henv, hcrew, hshared⟩ := hs
  have hrun := runIn_follows rest p.statements s.limit
    (hshared.holds _ List.mem_cons_self) (Holding.set_same _ _ _)
  rw [← henv] at hrun
  rw [mainFrame_of_env henv]
  exact .of_follows hcrew hshared hrun

/-- A program that ends leaves its frame idle. -/
theorem runProgram
    (hs : s.Tended) (p : Program) :
    s.runProgram p = (.error .endless, s) ∨
      (s.runProgram p).2.Tended ∧ (s.runProgram p).2.mainFrame = s.mainFrame := by
  have hbegin := hs.begin p
  obtain ⟨f, rest, -, -, henv, -⟩ := hs
  rcases runProgram_of_steady hbegin with
    hendless | ⟨outcome, ws, h, k, ks, lost, hresult, hcrew, hshared, rfl⟩
  · exact .inl hendless
  · rw [mainFrame_of_env henv] at hshared
    rw [hresult]
    exact .inr ⟨⟨f, rest, ks, lost, henv, hcrew, hshared⟩, rfl⟩

/-- Whatever is done with a session, its main program and its threads are looked after. -/
theorem after
    (limit : Nat) (actions : List Action) :
    (Session.after limit actions).Tended := by
  suffices hfold : ∀ s : Session, s.Tended → (actions.foldl perform s).Tended from
    hfold _ (Tended.start limit)
  induction actions with
  | nil =>
      exact fun s hs => hs
  | cons a actions ih =>
      intro s hs
      refine ih _ ?_
      cases a with
      | program p =>
          rcases hs.runProgram p with hendless | ⟨hended, -⟩
          · rw [perform, hendless]
            exact hs
          · exact hended
      | reset =>
          exact hs.reset
      | takeOutput =>
          exact hs.takeOutput

/-- Between two programs the frame of the main program has only complete visits behind it. -/
theorem complete
    (hs : s.Tended) :
    ∃ vs, s.heap.history.reverse.filter (·.isOf s.mainFrame) = Visit.all s.mainFrame vs := by
  obtain ⟨f, rest, ks, lost, henv, hcrew, hshared⟩ := hs
  rw [mainFrame_of_env henv]
  have hidle := (hshared.holds _ List.mem_cons_self).status (Holding.set_same _ _ _)
  exact hidle.1.complete

end Tended

/-! ### The law -/

/-- Whatever was done with a session, a further program obeys the law of deferred calls. -/
theorem after_obeysDeferLaw
    (limit : Nat) (actions : List Action) (p : Program) :
    (after limit actions).ObeysDeferLaw p := by
  have htended := Tended.after limit actions
  generalize after limit actions = s at htended ⊢
  refine ⟨fun r ws h hreaches hh => ?_, ?_, s.keepsOrder p⟩
  · exact ((htended.begin p).reaches hreaches).deferLaw hh
  · rcases htended.runProgram p with hendless | ⟨htended', hmain⟩
    · exact .inl hendless
    · rw [← hmain]
      exact .inr htended'.complete

end Session
end ScriptEngine
