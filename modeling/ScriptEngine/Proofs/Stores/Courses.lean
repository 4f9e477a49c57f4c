import ScriptEngine.Proofs.Registry.Entry
import ScriptEngine.Proofs.Stores.Session

/-!
# The course of a construction

A construction evaluates the initializers of the oldest ancestor first and those of the class itself at
last, those of one class in the order of their declaration, and then it runs the constructor.

Initializers and constructors are code of the program.  They may construct other instances, call methods
of the instance that is under construction, and run constructors of ancestors on it, any number of
times.  None of that evaluates an initializer a second time or out of turn: what befalls an instance is
told to it by the code that runs on it, and in every state of every run that is a part of the
course of its class.

The constructor that was selected begins after all initializers.  The body of a constructor may begin
earlier: an initializer can run a constructor above as any other code can.
-/

namespace ScriptEngine

/-! ### What is told to an instance -/

/-- An instance of a class that is no record has gone, or is going, the course of its construction. -/
structure ObjectState.InCourse (s : ObjectState) : Prop where
  /-- Each initializer is evaluated once and in turn, on the instance itself. -/
  course : s.told.reverse <+: s.self.cls.course
  /-- The constructor begins when all fields have been filled, and nothing else comes after it. -/
  entered : .entered ∈ s.told → s.told.reverse = s.self.cls.course
  /-- When the construction is complete, nothing has been left out but a constructor that there is not. -/
  built : s.built = true → s.told.reverse = s.self.cls.fillings ∨ s.told.reverse = s.self.cls.course

namespace ClassDef

/-- The initializers are evaluated before any constructor begins. -/
theorem entered_notMem_fillings
    (c : ClassDef) :
    .entered ∉ c.fillings := by
  simp [fillings, ownFillings]

/-- A part of the course ends among the initializers, or it is all of the course. -/
theorem prefix_course_iff
    {c : ClassDef} {told : List BuildEvent} :
    told <+: c.course ↔ told = c.course ∨ told <+: c.fillings := by
  exact List.prefix_concat_iff

end ClassDef

namespace ObjectState

theorem OnCourse.inCourse
    {s : ObjectState} (hs : s.OnCourse) (hkind : s.self.cls.kind ≠ .record) :
    s.InCourse where
  course := hs.course hkind
  entered hentered := by
    refine (ClassDef.prefix_course_iff.mp (hs.course hkind)).resolve_right fun hpart => ?_
    exact s.self.cls.entered_notMem_fillings (hpart.subset (List.mem_reverse.mpr hentered))
  built hbuilt := by
    have hfilled := hs.filled hkind hbuilt
    rcases ClassDef.prefix_course_iff.mp (hs.course hkind) with hall | hpart
    · exact .inr hall
    · exact .inl (hpart.eq_of_length_le hfilled.length_le)

end ObjectState

/-! ### Constructions that complete -/

namespace Res.Ends

variable {α β : Type} {h' : Heap}

/-- An evaluation whose outcome is taken ends in the same heap. -/
theorem of_attempt
    {r : Res α} {outcome : Except Signal α}
    (hend : r.attempt.Ends (.ok outcome) h') :
    r.Ends outcome h' := by
  induction r with
  | value a h =>
      cases hend
      exact .value a h'
  | raise s h =>
      cases hend
      exact .raise s h'
  | blocked b h resume ih =>
      cases hend with
      | resumed hend =>
          exact .resumed (ih _ hend)
  | outOfFuel =>
      cases hend

/-- A sequence completes in its second part. -/
theorem ok_of_bind
    {c : Context} {h : Heap} {x : Eval α} {f : α → Eval β} {b : β}
    (hend : ((x >>= f) c h).Ends (.ok b) h') :
    ∃ a h₁, (x c h).Ends (.ok a) h₁ ∧ (f a c h₁).Ends (.ok b) h' := by
  rw [Eval.bind_apply] at hend
  rcases hend.of_bind with ⟨s, -, herror⟩ | hnext
  · cases herror
  · exact hnext

end Res.Ends

namespace Eval

variable {E : Engine} {o : Instance} {constructor : Option Method} {args : List Value} {site : Span}
variable {c : Context} {h h' : Heap}

/-- What comes after a computation that completes. -/
theorem afterwards_ends
    {α : Type} {x : Eval α} {f : Heap → Heap} {a : α}
    (hend : (afterwards x f c h).Ends (.ok a) h') :
    ∃ h₁, (x c h).Ends (.ok a) h₁ ∧ h' = f h₁ := by
  obtain ⟨outcome, h₁, houtcome, hend⟩ := hend.ok_of_bind
  obtain ⟨u, h₂, hmodify, hend⟩ := hend.ok_of_bind
  rw [attempt_apply] at houtcome
  cases hmodify
  cases outcome with
  | error s =>
      cases hend
  | ok b =>
      cases hend
      exact ⟨h₁, houtcome.of_attempt, rfl⟩

/-- A construction that completes has marked its instance as built. -/
theorem construct_built
    (hend : (construct E o constructor args site c h).Ends (.ok ()) h')
    (hid : o.id < h'.objects.size) :
    (h'.object o.id).built = true ∧ (h'.object o.id).constructing = false := by
  obtain ⟨h₁, hbuild, rfl⟩ := afterwards_ends hend
  obtain ⟨u, h₂, -, hrest⟩ := hbuild.ok_of_bind
  have hmarks : ∃ h₃ : Heap, h₁ = h₃.markBuilt o := by
    cases constructor with
    | none =>
        cases hrest
        exact ⟨h₂, rfl⟩
    | some m =>
        obtain ⟨_, _, -, hrest⟩ := hrest.ok_of_bind
        obtain ⟨_, h₃, -, hlast⟩ := hrest.ok_of_bind
        cases hlast
        exact ⟨h₃, rfl⟩
  obtain ⟨h₃, rfl⟩ := hmarks
  have hsize : o.id < h₃.objects.size := by
    simpa [Heap.endConstruction, Heap.markBuilt, Heap.modifyObject] using hid
  have hsize' : o.id < (h₃.markBuilt o).objects.size := by
    simpa [Heap.markBuilt, Heap.modifyObject] using hsize
  rw [Heap.endConstruction, Heap.object_modify, if_pos ⟨rfl, hsize'⟩, Heap.markBuilt,
    Heap.object_modify, if_pos ⟨rfl, hsize⟩]
  exact ⟨rfl, rfl⟩

end Eval

/-! ### Runs -/

namespace Session

/-- How a run builds instances. -/
structure BuildsInCourse (s : Session) (p : Program) : Prop where
  /-- In every state every instance is in the course of its construction. -/
  states : ∀ r ws h, Eval.Reaches s.limit (s.begin p) s.waiting r ws → r.heap? = some h →
    ∀ trail ∈ h.objects, ∀ state ∈ trail.states, state.self.cls.kind ≠ .record → state.InCourse
  /-- A construction that completes leaves an instance that is built. -/
  completed : ∀ E o constructor args site c h h',
    (Eval.construct E o constructor args site c h).Ends (.ok ()) h' → o.id < h'.objects.size →
      (h'.object o.id).built = true
  /-- What is told is what is done: a construction evaluates each initializer of each class of the
  lineage once and in turn, and calls the constructor when that completes. -/
  inOrder : s.KeepsOrder p

/-- In every run of every program each instance is built in the course of its class: its initializers
are evaluated once each, the oldest ancestor's first, and then the constructor runs that was selected. -/
theorem after_buildsInCourse
    (limit : Nat) (actions : List Action) (p : Program) :
    (after limit actions).BuildsInCourse p := by
  refine ⟨fun r ws h hreach hh trail htrail state hstate hkind => ?_,
    fun E o constructor args site c h h' hend hid => (Eval.construct_built hend hid).1,
    keepsOrder _ p⟩
  obtain ⟨w, hfits⟩ := (((Stocked.after limit actions).begin p).reaches hreach).fits hh
  exact (hfits.objects.orderly.each trail htrail state hstate).onCourse.inCourse hkind

end Session

/-! ### A constructor body that begins before an initializer -/

namespace Eval

/-- A call that adds a text to the array `trace`. -/
def traced (text : String) : Expr :=
  .call (.member (.identifier "trace" default) "push" default) [] [.string text default] default

/-- A field with an initializer. -/
def initialised (name : String) (init : Expr) : FieldDecl Expr :=
  { name := name, kind := .letBinding, modifiers := .plain, type := none, init := some init
    span := default }

/-- A class whose constructor is traced, and a class under it with two initializers.  The first one runs
the constructor above, and the second one is traced. -/
def hastyProgram : List Stmt :=
  [.variable .letBinding "trace" none (some (.array [] default)) default,
   .classDecl
    { name := "A", typeParams := [], parent := none, interfaces := [], isSealed := false
      isAbstract := false, permits := [], fields := [], methods := []
      constructors := [⟨[], [.expression (traced "body") default], default⟩], span := default },
   .classDecl
    { name := "B", typeParams := [], parent := some (.simple "A"), interfaces := []
      isSealed := false, isAbstract := false, permits := []
      fields := [initialised "x" (.call (.super default) [] [] default),
        initialised "y" (traced "init")]
      methods := [], constructors := [], span := default },
   .expression (.call (.identifier "B" default) [] [] default) default,
   .expression (.identifier "trace" default) default]

/-- The construction completes, but a statement of a constructor body comes before the second
initializer. -/
theorem hastyProgram_runs_body_first :
    ∃ v h', (execBody engine hastyProgram bareScope.1 (.ofLimit 3) bareScope.2).Ends
        (.ok (.value v)) h' ∧
      h'.display v = "[body, init, body]" ∧ (h'.object 0).built = true := by
  have hrun : (execBody engine hastyProgram bareScope.1 (.ofLimit 3) bareScope.2).hands
      (fun v h' => h'.display v == "[body, init, body]" && (h'.object 0).built) = true := by
    decide +kernel
  obtain ⟨v, h', hend, htest⟩ := Res.Ends.of_hands hrun
  rw [Bool.and_eq_true, beq_iff_eq] at htest
  exact ⟨v, h', hend, htest⟩

end Eval
end ScriptEngine
