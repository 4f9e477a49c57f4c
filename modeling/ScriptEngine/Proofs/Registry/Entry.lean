import Mathlib.Logic.Relation
import ScriptEngine.Proofs.Evaluation.Calls
import ScriptEngine.Proofs.Registry.Declaration

/-!
# What a failed declaration leaves behind

A declaration that fails one of its checks changes no type and no scope.  After the checks the type
is entered at once, so that the constants of an enum and the first values of static fields may refer
to it.  When one of these fails, nothing takes the entry back: the name stands for the new type.

**The trail of a declaration.** Between the entry and the end, code of the program runs: arguments
of constants, constructors, first values.  `Trail` tells the heap from part to part.  A part is a
run of such code, with whatever other threads do meanwhile, or a step of the declaration itself,
which leaves all names alone.  So whoever finds the name changed in the end can name the run that
changed it.
-/

namespace ScriptEngine

open Relation (ReflTransGen)

variable {α β : Type}

/-! ### Ends of evaluations -/

/-- An evaluation ends with an outcome in a heap, whatever the other threads do while it waits. -/
inductive Res.Ends : Res α → Except Signal α → Heap → Prop
  | value (a : α) (h : Heap) : Ends (.value a h) (.ok a) h
  | raise (s : Signal) (h : Heap) : Ends (.raise s h) (.error s) h
  | resumed {b : Blocker} {h h₁ h' : Heap} {resume : Heap → Res α} {o : Except Signal α} :
      Ends (resume h₁) o h' → Ends (.blocked b h resume) o h'

/-- Whether an execution hands on a value that passes a test, and waits for no other thread. -/
def Res.hands (test : Value → Heap → Bool) : Res Flow → Bool
  | .value (.value v) h => test v h
  | _ => false

namespace Res.Ends

variable {r : Res α} {h' : Heap}

/-- A sequence ends in its first part, or there its second part begins. -/
theorem of_bind
    {f : α → Heap → Res β} {o : Except Signal β}
    (hend : (r.bind f).Ends o h') :
    (∃ s, r.Ends (.error s) h' ∧ o = .error s) ∨
      ∃ a h₁, r.Ends (.ok a) h₁ ∧ (f a h₁).Ends o h' := by
  induction r with
  | value a h =>
      exact .inr ⟨a, h, .value a h, hend⟩
  | raise s h =>
      cases hend
      exact .inl ⟨s, .raise s h', rfl⟩
  | blocked b h resume ih =>
      cases hend with
      | resumed hend =>
          rcases ih _ hend with ⟨s, hs, ho⟩ | ⟨a, h₂, ha, hf⟩
          · exact .inl ⟨s, .resumed hs, ho⟩
          · exact .inr ⟨a, h₂, .resumed ha, hf⟩
  | outOfFuel =>
      cases hend

/-- A change of faults changes the fault that an evaluation ends with. -/
theorem of_mapFault
    {f : Fault → Fault} {s : Signal}
    (hend : (r.mapFault f).Ends (.error s) h') :
    ∃ s₀, r.Ends (.error s₀) h' ∧ ∀ e, s₀ = .fault e → s = .fault (f e) := by
  induction r with
  | value a h =>
      cases hend
  | raise s₀ h =>
      cases s₀ with
      | thrown e =>
          cases hend
          exact ⟨.thrown e, .raise _ h', fun _ he => nomatch he⟩
      | fault e =>
          cases hend
          exact ⟨.fault e, .raise _ h', fun _ he => by cases he; rfl⟩
  | blocked b h resume ih =>
      cases hend with
      | resumed hend =>
          obtain ⟨s₀, hs, hfault⟩ := ih _ hend
          exact ⟨s₀, .resumed hs, hfault⟩
  | outOfFuel =>
      cases hend

/-- An execution that hands a value on ends with it. -/
theorem of_hands
    {r : Res Flow} {test : Value → Heap → Bool} (hhands : r.hands test = true) :
    ∃ v h', r.Ends (.ok (.value v)) h' ∧ test v h' = true := by
  cases r with
  | value flow h' =>
      cases flow with
      | value v =>
          exact ⟨v, h', .value _ h', hhands⟩
      | ret | stop | next =>
          cases hhands
  | raise | blocked | outOfFuel =>
      cases hhands

end Res.Ends

/-! ### What a name stands for -/

/-- Whether there is an innermost scope to bind names in. -/
def Scopes.HasInnermost (s : Scopes) : Env → Prop
  | [] => False
  | id :: _ => id < s.items.size

/-- The binding of a name in the innermost scope. -/
def Scopes.boundHere? (s : Scopes) (env : Env) (name : String) : Option Binding :=
  match env with
  | [] => none
  | id :: _ => (s.scope id).vars.find? name

theorem Scopes.boundHere?_define
    {s : Scopes} {env : Env}
    (hscope : s.HasInnermost env) (name : String) (b : Binding) :
    (s.define env name b).boundHere? env name = some b := by
  cases env with
  | nil =>
      cases hscope
  | cons id rest =>
      have hid : id < s.items.size := hscope
      simp [define, boundHere?, scope_update, hid, Assoc.find?_insert]

/-- The declared type and the binding in the innermost scope that a name stands for. -/
def Heap.standsFor (h : Heap) (env : Env) (name : String) : Option TypeDef × Option Binding :=
  (h.registry.find? name, h.scopes.boundHere? env name)

/-- A type that is entered is what its name stands for. -/
theorem Heap.standsFor_enterType
    {h : Heap} {env : Env}
    (hscope : h.scopes.HasInnermost env) (t : TypeDef) :
    (h.enterType env t).standsFor env t.name = (some t, some t.binding) := by
  unfold standsFor enterType
  rw [Registry.find?_put, if_pos rfl, Scopes.boundHere?_define hscope]

/-! ### The trail of a declaration -/

/-- A run of code of the program for the constants and static fields of a declaration. -/
inductive TypeDecl.Runs (d : TypeDecl) (E : Engine) (env : Env) (ctx : Context) :
    Heap → Heap → Prop
  /-- An argument of a constant. -/
  | argument {k : EnumConstant Expr} {e : Expr} {o : Except Signal Value} {h h' : Heap} :
      k ∈ d.constants → e ∈ k.args → (E.eval e env ctx h).Ends o h' → Runs d E env ctx h h'
  /-- The construction of a constant: first values of fields, and a constructor. -/
  | construction {k : EnumConstant Expr} {i : Instance} {constructor : Option Method}
      {args : List Value} {o : Except Signal Unit} {h h' : Heap} :
      k ∈ d.constants → (Eval.construct E i constructor args k.span ctx h).Ends o h' →
      Runs d E env ctx h h'
  /-- The first value of a static field. -/
  | firstValue {f : FieldDecl Expr} {e : Expr} {o : Except Signal Value} {h h' : Heap} :
      f ∈ d.staticFields → f.init = some e → (E.eval e env ctx h).Ends o h' →
      Runs d E env ctx h h'

/-- A step of a declaration itself after the entry of its type. -/
inductive Heap.Fills : Heap → Heap → Prop
  | object (h : Heap) (c : ClassDef) (typeArgs : List TypeExpr) (k : Option (String × Nat)) :
      Fills h (h.newObject c typeArgs k).2
  | constant (h : Heap) (id : Nat) (name : String) (v : Value) : Fills h (h.addConstant id name v)
  | static (h : Heap) (id : Nat) (name : String) (slot : StaticField) :
      Fills h (h.fillStatic id name slot)
  | ended (h : Heap) (id : Nat) : Fills h (h.endDeclaration id)
  | faulted (h : Heap) (cause : Cause) : Fills h (h.note (.faulted cause))

theorem Heap.Fills.sameTypes
    {h h' : Heap}
    (hfill : h.Fills h') :
    h.SameTypes h' := by
  cases hfill <;> exact ⟨rfl, rfl⟩

/-- From one heap to another by runs of code of the program and steps of the declaration. -/
def TypeDecl.Trail (d : TypeDecl) (E : Engine) (env : Env) (ctx : Context) : Heap → Heap → Prop :=
  ReflTransGen fun h h' => d.Runs E env ctx h h' ∨ h.Fills h'

/-- Along a trail a name keeps what it stands for, or one of the runs changes it. -/
theorem TypeDecl.Trail.kept_or_changed
    {d : TypeDecl} {E : Engine} {env : Env} {ctx : Context} {h h' : Heap} (name : String)
    (htrail : d.Trail E env ctx h h') :
    h'.standsFor env name = h.standsFor env name ∨
      ∃ h₁ h₂, d.Trail E env ctx h h₁ ∧ d.Runs E env ctx h₁ h₂ ∧ d.Trail E env ctx h₂ h' ∧
        h₂.standsFor env name ≠ h₁.standsFor env name := by
  induction htrail with
  | refl =>
      exact .inl rfl
  | @tail h₃ h₄ htrail hstep ih =>
      rcases ih with hkept | ⟨h₁, h₂, hbefore, hrun, hafter, hchanged⟩
      · rcases hstep with hrun | hfill
        · by_cases hsame : h₄.standsFor env name = h₃.standsFor env name
          · exact .inl (hsame.trans hkept)
          · exact .inr ⟨h₃, h₄, htrail, hrun, .refl, hsame⟩
        · obtain ⟨hregistry, hscopes⟩ := hfill.sameTypes
          rw [Heap.standsFor, hregistry, hscopes]
          exact .inl hkept
      · exact .inr ⟨h₁, h₂, hbefore, hrun, hafter.tail hstep, hchanged⟩

/-- A computation of a declaration leads along a trail to any of its ends. -/
def TypeDecl.Leads (d : TypeDecl) (E : Engine) (env : Env) (ctx : Context) (x : Eval α) : Prop :=
  ∀ h o h', (x ctx h).Ends o h' → d.Trail E env ctx h h'

namespace TypeDecl.Leads

variable {d : TypeDecl} {E : Engine} {env : Env} {ctx : Context}

theorem pure
    (a : α) :
    d.Leads E env ctx (Pure.pure a : Eval α) := by
  intro h o h' hend
  cases hend
  exact .refl

theorem bind
    {x : Eval α} {f : α → Eval β}
    (hx : d.Leads E env ctx x) (hf : ∀ a, d.Leads E env ctx (f a)) :
    d.Leads E env ctx (x >>= f) := by
  intro h o h' hend
  rw [Eval.bind_apply] at hend
  rcases hend.of_bind with ⟨s, hs, -⟩ | ⟨a, h₁, ha, hnext⟩
  · exact hx _ _ _ hs
  · exact (hx _ _ _ ha).trans (hf _ _ _ _ hnext)

theorem heap :
    d.Leads E env ctx Eval.heap := by
  intro h o h' hend
  cases hend
  exact .refl

/-- A step of the declaration itself. -/
theorem change
    {f : Heap → α × Heap}
    (hf : ∀ h : Heap, h.Fills (f h).2) :
    d.Leads E env ctx (Eval.change f) := by
  intro h o h' hend
  rw [Eval.change_apply] at hend
  cases hend
  exact .single (.inr (hf h))

theorem modify
    {f : Heap → Heap}
    (hf : ∀ h : Heap, h.Fills (f h)) :
    d.Leads E env ctx (Eval.modify f) := by
  exact change (f := fun h => ((), f h)) hf

theorem fault
    (cause : Cause) :
    d.Leads E env ctx (Eval.fault cause : Eval α) := by
  intro h o h' hend
  rw [Eval.fault_apply] at hend
  cases hend
  exact .single (.inr (.faulted h cause))

theorem checkOption
    (v : Value) (type : Option TypeExpr) (bs : Bindings) (what : String) :
    d.Leads E env ctx (Eval.checkOption v type bs what) := by
  unfold Eval.checkOption
  split
  · refine .bind heap fun h => ?_
    unfold Eval.unlessFault
    split
    · exact fault _
    · exact pure ()
  · exact pure ()

theorem selectConstructor
    (cls : String) (table : List Method) (argc : Nat) :
    d.Leads E env ctx (Eval.selectConstructor cls table argc) := by
  unfold Eval.selectConstructor
  split
  · split
    · exact pure none
    · exact fault _
  · split
    · exact pure _
    · exact fault _

/-- The arguments of a constant are run one after another. -/
theorem arguments
    {k : EnumConstant Expr} (hk : k ∈ d.constants) {es : List Expr} (hes : ∀ e ∈ es, e ∈ k.args) :
    d.Leads E env ctx (es.mapM fun e => E.eval e env) := by
  induction es with
  | nil =>
      rw [List.mapM_nil]
      exact pure []
  | cons e rest ih =>
      rw [List.mapM_cons]
      refine .bind (fun h o h' hend => ?_) fun v => .bind (ih fun e he => ?_) fun vs => pure _
      · exact .single (.inl (.argument hk (hes e List.mem_cons_self) hend))
      · exact hes e (List.mem_cons_of_mem _ he)

theorem makeConstants
    {c : ClassDef} {ks : List (EnumConstant Expr)} (ordinal : Nat)
    (hks : ∀ k ∈ ks, k ∈ d.constants) :
    d.Leads E env ctx (Eval.makeConstants E c env ordinal ks) := by
  induction ks generalizing ordinal with
  | nil =>
      exact pure ()
  | cons k rest ih =>
      have hk := hks k List.mem_cons_self
      have hconstant : d.Leads E env ctx (Eval.makeConstant E c k ordinal env) := by
        refine .bind (arguments hk fun e he => he) fun args => ?_
        refine .bind (selectConstructor _ _ _) fun constructor => ?_
        refine .bind (change fun h => .object h c [] _) fun i => ?_
        refine .bind (fun h o h' hend => ?_) fun _ => modify fun h => .constant h _ _ _
        exact .single (.inl (.construction hk hend))
      exact .bind hconstant fun _ => ih _ fun k hk => hks k (List.mem_cons_of_mem _ hk)

theorem fillStatics
    {id : Nat} {owner : String} {fs : List (FieldDecl Expr)} (hfs : ∀ f ∈ fs, f ∈ d.staticFields) :
    d.Leads E env ctx (Eval.fillStatics E id owner env fs) := by
  induction fs with
  | nil =>
      exact pure ()
  | cons f rest ih =>
      have hrest := ih fun f hf => hfs f (List.mem_cons_of_mem _ hf)
      unfold Eval.fillStatics
      cases hinit : f.init with
      | none =>
          refine .bind (pure _) fun v => .bind (checkOption _ _ _ _) fun _ => ?_
          exact .bind (modify fun h => .static h _ _ _) fun _ => hrest
      | some e =>
          refine .bind (fun h o h' hend => ?_) fun v => .bind (checkOption _ _ _ _) fun _ => ?_
          · exact .single (.inl (.firstValue (hfs f List.mem_cons_self) hinit hend))
          · exact .bind (modify fun h => .static h _ _ _) fun _ => hrest

/-- What comes after the entry of a type leads along a trail. -/
theorem initialise
    (t : TypeDef) :
    d.Leads E env ctx (d.initialise E env t) := by
  have hstatics : d.Leads E env ctx (Eval.fillStatics E t.id d.name env d.staticFields) :=
    fillStatics fun f hf => hf
  have hend : d.Leads E env ctx (Eval.modify (·.endDeclaration t.id)) := modify fun h => .ended h _
  unfold TypeDecl.initialise
  cases t with
  | cls c =>
      refine .bind (makeConstants 0 fun k hk => hk) fun _ => .bind hstatics fun _ => hend
  | interface i =>
      refine .bind hstatics fun _ => hend

end TypeDecl.Leads

/-! ### Failed declarations -/

namespace Eval

variable {E : Engine} {env : Env} {ctx : Context} {h h' : Heap}

/-- A declaration that fails has failed a check and changed neither types nor scopes; or its type
has been entered and stays so, unless code that the declaration runs changes what the name stands
for. -/
theorem declaration_fails
    {d : TypeDecl} {s : Signal}
    (hscope : h.scopes.HasInnermost env)
    (hend : (execStmt E d.statement env ctx h).Ends (.error s) h') :
    (∃ cause, d.checked h env = .error cause ∧
      s = .fault ((Fault.ofCause cause).locate d.statement.span) ∧ h.SameTypes h') ∨
    ∃ t, d.checked h env = .ok t ∧
      (h'.standsFor env d.name = (some t, some t.binding) ∨
        ∃ h₁ h₂, d.Trail E env ctx (h.newStatics.2.enterType env t) h₁ ∧
          d.Runs E env ctx h₁ h₂ ∧ d.Trail E env ctx h₂ h' ∧
          h₂.standsFor env d.name ≠ h₁.standsFor env d.name) := by
  obtain ⟨s₀, hends, hlocate⟩ := Res.Ends.of_mapFault hend
  have hbegins := dispatch_declaration E env d h
  cases hchecked : d.checked h env with
  | error cause =>
      rw [hchecked] at hbegins
      obtain ⟨h₁, hraise, hrefuses⟩ := hbegins ctx
      rw [hraise] at hends
      cases hends
      exact .inl ⟨cause, rfl, hlocate _ rfl, hrefuses.sameTypes⟩
  | ok t =>
      rw [hchecked] at hbegins
      rw [hbegins ctx] at hends
      have htrail : d.Trail E env ctx (h.newStatics.2.enterType env t) h' :=
        TypeDecl.Leads.bind (.initialise t) (fun _ => .pure _) _ _ _ hends
      have hentered : (h.newStatics.2.enterType env t).standsFor env d.name =
          (some t, some t.binding) := by
        rw [← (TypeDecl.name_of_checked hchecked).1]
        exact Heap.standsFor_enterType hscope t
      rcases htrail.kept_or_changed d.name with hkept | hchanged
      · exact .inr ⟨t, rfl, .inl (hkept.trans hentered)⟩
      · exact .inr ⟨t, rfl, .inr hchanged⟩

/-! ### An enum without the constructor that its constant needs -/

/-- An enum without constructors, whose constant has an argument. -/
def strandedEnum : TypeDecl :=
  .enumeration
    { name := "E", isSealed := false, permits := [], interfaces := []
      constants := [⟨"A", [.int 1 default], default⟩]
      fields := [], methods := [], constructors := [], span := default }

/-- The scope of a program that has bound nothing, and its heap. -/
def bareScope : Env × Heap :=
  let r := Scopes.root default
  (r.1, { Heap.empty with scopes := r.2 })

/-- The declaration ends with a fault, and what its name stands for is another. -/
theorem strandedEnum_stays :
    ∃ s h', (execStmt engine strandedEnum.statement bareScope.1 (.ofLimit 1) bareScope.2).Ends
        (.error s) h' ∧
      (bareScope.2.standsFor bareScope.1 "E").1.isNone ∧
      (h'.standsFor bareScope.1 "E").1.isSome ∧ (h'.standsFor bareScope.1 "E").2.isSome := by
  have hrun : (match execStmt engine strandedEnum.statement bareScope.1 (.ofLimit 1) bareScope.2
      with
      | .raise _ h' =>
        (h'.standsFor bareScope.1 "E").1.isSome && (h'.standsFor bareScope.1 "E").2.isSome
      | _ => false) = true := by
    decide +kernel
  cases hres : execStmt engine strandedEnum.statement bareScope.1 (.ofLimit 1) bareScope.2 with
  | raise s h' =>
      rw [hres, Bool.and_eq_true] at hrun
      exact ⟨s, h', .raise s h', rfl, hrun⟩
  | value | blocked | outOfFuel =>
      rw [hres] at hrun
      cases hrun

/-- A declaration that extends a type that nobody has declared fails its check, and nothing is
entered. -/
theorem declaration_fails_unknownInterface :
    let d : TypeDecl := .record
      { name := "R", typeParams := [], components := [], interfaces := [.simple "I"]
        methods := [], span := default }
    bareScope.2.scopes.HasInnermost bareScope.1 ∧
    ∃ s h', (execStmt engine d.statement bareScope.1 (.ofLimit 1) bareScope.2).Ends (.error s) h' ∧
      bareScope.2.SameTypes h' := by
  intro d
  have hscope : bareScope.2.scopes.HasInnermost bareScope.1 := Nat.one_pos
  have hchecked : d.checked bareScope.2 bareScope.1 = .error (.undefinedName "I") := by rfl
  have hbegins := dispatch_declaration engine bareScope.1 d bareScope.2
  rw [hchecked] at hbegins
  obtain ⟨h', hraise, -⟩ := hbegins (.ofLimit 1)
  have hend : (execStmt engine d.statement bareScope.1 (.ofLimit 1) bareScope.2).Ends
      (.error (.fault ((Fault.ofCause (.undefinedName "I")).locate default))) h' := by
    rw [execStmt, mapFault, hraise]
    exact .raise _ _
  refine ⟨hscope, _, h', hend, ?_⟩
  rcases declaration_fails hscope hend with ⟨-, -, -, hsame⟩ | ⟨t, ht, -⟩
  · exact hsame
  · rw [hchecked] at ht
    cases ht

end Eval

end ScriptEngine
