import ScriptEngine.Proofs.Evaluation.Laws

/-!
# Declarations of types in two parts

The four declarations of types work alike.  First the declaration is *checked*: its supertypes are
looked up, and the type is made and looked at.  Then the type is *entered* under its name, and its
constants and static fields get their values, which may run any code.

`TypeDecl.checked` is the first part; it only reads the heap.  `TypeDecl.initialise` is what comes
after the type has been entered.

**Two ways to begin.** A declaration that fails a check ends with its fault and leaves types and
scopes as they were.  One that passes its checks enters the type before any code of the program
runs.  `dispatch_declaration` says so of all four.
-/

namespace ScriptEngine

/-! ### Types and their declarations -/

namespace TypeDef

/-- The number under which the static fields of a type are kept. -/
def id : TypeDef → Nat
  | cls c => c.id
  | interface i => i.own.id

/-- What the name of a type is bound to. -/
def value : TypeDef → Value
  | cls c => .classDef c
  | interface i => .interfaceDef i

/-- The binding of the name of a type. -/
def binding (t : TypeDef) : Binding := ⟨t.value, .constBinding, none⟩

end TypeDef

/-- Puts a type into the registry and binds its name in the innermost scope. -/
def Heap.enterType (h : Heap) (env : Env) (t : TypeDef) : Heap :=
  { h with
    registry := h.registry.put t
    declared := t.name :: h.declared
    scopes := h.scopes.define env t.name t.binding }

/-- A declaration of a type. -/
inductive TypeDecl
  | cls (d : ClassDecl Expr Stmt)
  | interface (d : InterfaceDecl Expr Stmt)
  | enumeration (d : EnumDecl Expr Stmt)
  | record (d : RecordDecl Stmt)

/-- Passes unless there is a fault. -/
def passes : Option Cause → Except Cause Unit
  | some cause => .error cause
  | none => .ok ()

theorem ClassDecl.owned
    (d : ClassDecl Expr Stmt) (env : Env) :
    ∀ m ∈ Eval.methodsOf d.name env false d.methods ++
      d.constructors.map (Eval.constructorOf d.name env), m.owner = d.name :=
  Eval.owner_of_declared d.name env d.methods d.constructors

theorem EnumDecl.owned
    (d : EnumDecl Expr Stmt) (env : Env) :
    ∀ m ∈ Eval.methodsOf d.name env false d.methods ++
      d.constructors.map (Eval.constructorOf d.name env), m.owner = d.name :=
  Eval.owner_of_declared d.name env d.methods d.constructors

theorem RecordDecl.owned
    (d : RecordDecl Stmt) (env : Env) :
    ∀ m ∈ Eval.methodsOf d.name env false d.methods ++ [], m.owner = d.name :=
  Eval.owner_of_declared d.name env d.methods []

/-- The class that a class declaration makes of its parent and its interfaces. -/
def ClassDecl.toClass (d : ClassDecl Expr Stmt) (id : Nat) (env : Env) (parent : Option ClassDef)
    (interfaces : List Interface) : ClassDef where
  own :=
    { id := id
      name := d.name
      kind := .cls
      typeParams := d.typeParams
      parentArgs := (d.parent.map TypeExpr.arguments).getD [] |>.map TypeExpr.canonical
      interfaces := interfaces
      isAbstract := d.isAbstract
      isSealed := d.isSealed
      permits := d.permits
      fields := Eval.fieldsOf d.fields
      methods := Eval.methodsOf d.name env false d.methods
      staticMethods := Eval.methodsOf d.name env true d.methods
      constructors := d.constructors.map (Eval.constructorOf d.name env)
      components := []
      closure := env
      owned := d.owned env }
  ancestors := (parent.map ClassDef.layers).getD []

/-- The class that an enum declaration makes of its interfaces. -/
def EnumDecl.toClass (d : EnumDecl Expr Stmt) (id : Nat) (env : Env)
    (interfaces : List Interface) : ClassDef where
  own :=
    { id := id
      name := d.name
      kind := .enumeration
      typeParams := []
      parentArgs := []
      interfaces := interfaces
      isAbstract := false
      isSealed := d.isSealed
      permits := d.permits
      fields := Eval.fieldsOf d.fields
      methods := Eval.methodsOf d.name env false d.methods
      staticMethods := Eval.methodsOf d.name env true d.methods
      constructors := d.constructors.map (Eval.constructorOf d.name env)
      components := []
      closure := env
      owned := d.owned env }
  ancestors := []

/-- The class that a record declaration makes of its interfaces. -/
def RecordDecl.toClass (d : RecordDecl Stmt) (id : Nat) (env : Env)
    (interfaces : List Interface) : ClassDef where
  own :=
    { id := id
      name := d.name
      kind := .record
      typeParams := d.typeParams
      parentArgs := []
      interfaces := interfaces
      isAbstract := false
      isSealed := false
      permits := []
      fields := []
      methods := Eval.methodsOf d.name env false d.methods
      staticMethods := Eval.methodsOf d.name env true d.methods
      constructors := []
      components := Eval.withCanonicalTypes d.components
      closure := env
      owned := d.owned env }
  ancestors := []

/-- The interface that an interface declaration makes of those it extends. -/
def InterfaceDecl.toInterface (d : InterfaceDecl Expr Stmt) (id : Nat) (env : Env)
    (parents : List Interface) : Interface :=
  .mk
    { id := id
      name := d.name
      typeParams := d.typeParams
      isSealed := d.isSealed
      permits := d.permits
      methods := d.methods.map fun m => Eval.methodOf d.name env m m.hasBody } parents

namespace TypeDecl

def name : TypeDecl → String
  | cls d => d.name
  | interface d => d.name
  | enumeration d => d.name
  | record d => d.name

def statement : TypeDecl → Stmt
  | cls d => .classDecl d
  | interface d => .interfaceDecl d
  | enumeration d => .enumDecl d
  | record d => .recordDecl d

/-- The constants of an enum. -/
def constants : TypeDecl → List (EnumConstant Expr)
  | enumeration d => d.constants
  | _ => []

/-- The static fields, which get their values when the type is declared. -/
def staticFields : TypeDecl → List (FieldDecl Expr)
  | cls d => Eval.staticFields d.fields
  | interface d => d.fields
  | enumeration d => Eval.staticFields d.fields
  | record _ => []

/-- The type that a declaration makes, if it passes the checks. -/
def checked (d : TypeDecl) (h : Heap) (env : Env) : Except Cause TypeDef := do
  match d with
  | cls d =>
    let parent ← match d.parent with
      | some t => do pure (some (← Eval.parentOf h env d.name t))
      | none => pure none
    let interfaces ← Eval.interfacesOf h env d.name d.interfaces
    passes (varianceFault? d.typeParams (Eval.methodsOf d.name env false d.methods))
    let c := d.toClass h.statics.size env parent interfaces
    if !d.isAbstract then passes c.missingBody?
    pure (.cls c)
  | interface d =>
    let parents ← Eval.interfacesOf h env d.name d.parents
    let i := d.toInterface h.statics.size env parents
    passes (varianceFault? d.typeParams i.own.methods)
    pure (.interface i)
  | enumeration d =>
    let interfaces ← Eval.interfacesOf h env d.name d.interfaces
    let c := d.toClass h.statics.size env interfaces
    passes c.missingBody?
    pure (.cls c)
  | record d =>
    let interfaces ← Eval.interfacesOf h env d.name d.interfaces
    passes (varianceFault? d.typeParams (Eval.methodsOf d.name env false d.methods))
    let c := d.toClass h.statics.size env interfaces
    passes c.missingBody?
    pure (.cls c)

/-! ### What a declaration has been checked for -/

section Checked

variable {h : Heap} {env : Env} {t : TypeDef}

theorem of_bind_eq_ok {α β : Type} {x : Except Cause α} {f : α → Except Cause β} {b : β}
    (hok : (x >>= f) = .ok b) :
    ∃ a, x = .ok a ∧ f a = .ok b := by
  cases x with
  | ok a =>
      exact ⟨a, rfl, hok⟩
  | error cause =>
      cases hok

theorem of_passes_eq_ok {cause? : Option Cause} {u : Unit}
    (hok : passes cause? = .ok u) :
    cause? = none := by
  cases cause? with
  | none =>
      rfl
  | some cause =>
      cases hok

theorem of_checked_cls {d : ClassDecl Expr Stmt}
    (hok : (cls d).checked h env = .ok t) :
    ∃ parent interfaces,
      (∀ p, parent = some p → ∃ e, Eval.parentOf h env d.name e = .ok p) ∧
      Eval.interfacesOf h env d.name d.interfaces = .ok interfaces ∧
      varianceFault? d.typeParams (Eval.methodsOf d.name env false d.methods) = none ∧
      t = .cls (d.toClass h.statics.size env parent interfaces) ∧
      (d.isAbstract = true ∨ (d.toClass h.statics.size env parent interfaces).missingBody? = none)
    := by
  have hrest (parent : Option ClassDef) (hok : (do
      let interfaces ← Eval.interfacesOf h env d.name d.interfaces
      passes (varianceFault? d.typeParams (Eval.methodsOf d.name env false d.methods))
      let c := d.toClass h.statics.size env parent interfaces
      if !d.isAbstract then passes c.missingBody?
      pure (TypeDef.cls c)) = Except.ok t) :
      ∃ interfaces,
        Eval.interfacesOf h env d.name d.interfaces = .ok interfaces ∧
        varianceFault? d.typeParams (Eval.methodsOf d.name env false d.methods) = none ∧
        t = .cls (d.toClass h.statics.size env parent interfaces) ∧
        (d.isAbstract = true ∨
          (d.toClass h.statics.size env parent interfaces).missingBody? = none) := by
    obtain ⟨interfaces, hinterfaces, hok⟩ := of_bind_eq_ok hok
    obtain ⟨_, hvariance, hok⟩ := of_bind_eq_ok hok
    refine ⟨interfaces, hinterfaces, of_passes_eq_ok hvariance, ?_⟩
    cases habstract : d.isAbstract with
    | true =>
        simp only [habstract] at hok
        cases hok
        exact ⟨rfl, .inl rfl⟩
    | false =>
        simp only [habstract] at hok
        obtain ⟨_, hmissing, hok⟩ := of_bind_eq_ok hok
        cases hok
        exact ⟨rfl, .inr (of_passes_eq_ok hmissing)⟩
  dsimp only [checked] at hok
  cases hp : d.parent with
  | none =>
      rw [hp] at hok
      obtain ⟨interfaces, hrest⟩ := hrest none hok
      exact ⟨none, interfaces, (fun p hp => nomatch hp), hrest⟩
  | some e =>
      rw [hp] at hok
      obtain ⟨p, hparent, hok⟩ := of_bind_eq_ok hok
      obtain ⟨interfaces, hrest⟩ := hrest (some p) hok
      exact ⟨some p, interfaces, fun _ hp => ⟨e, by cases hp; exact hparent⟩, hrest⟩

theorem of_checked_interface {d : InterfaceDecl Expr Stmt}
    (hok : (interface d).checked h env = .ok t) :
    ∃ parents,
      Eval.interfacesOf h env d.name d.parents = .ok parents ∧
      t = .interface (d.toInterface h.statics.size env parents) ∧
      varianceFault? d.typeParams (d.toInterface h.statics.size env parents).own.methods = none
    := by
  obtain ⟨parents, hparents, hok⟩ := of_bind_eq_ok hok
  obtain ⟨_, hvariance, hok⟩ := of_bind_eq_ok hok
  cases hok
  exact ⟨parents, hparents, rfl, of_passes_eq_ok hvariance⟩

theorem of_checked_enumeration {d : EnumDecl Expr Stmt}
    (hok : (enumeration d).checked h env = .ok t) :
    ∃ interfaces,
      Eval.interfacesOf h env d.name d.interfaces = .ok interfaces ∧
      t = .cls (d.toClass h.statics.size env interfaces) ∧
      (d.toClass h.statics.size env interfaces).missingBody? = none := by
  obtain ⟨interfaces, hinterfaces, hok⟩ := of_bind_eq_ok hok
  obtain ⟨_, hmissing, hok⟩ := of_bind_eq_ok hok
  cases hok
  exact ⟨interfaces, hinterfaces, rfl, of_passes_eq_ok hmissing⟩

theorem of_checked_record {d : RecordDecl Stmt}
    (hok : (record d).checked h env = .ok t) :
    ∃ interfaces,
      Eval.interfacesOf h env d.name d.interfaces = .ok interfaces ∧
      varianceFault? d.typeParams (Eval.methodsOf d.name env false d.methods) = none ∧
      t = .cls (d.toClass h.statics.size env interfaces) ∧
      (d.toClass h.statics.size env interfaces).missingBody? = none := by
  obtain ⟨interfaces, hinterfaces, hok⟩ := of_bind_eq_ok hok
  obtain ⟨_, hvariance, hok⟩ := of_bind_eq_ok hok
  obtain ⟨_, hmissing, hok⟩ := of_bind_eq_ok hok
  cases hok
  exact ⟨interfaces, hinterfaces, of_passes_eq_ok hvariance, rfl, of_passes_eq_ok hmissing⟩

/-- A declaration makes a type of its own name, which gets the next number. -/
theorem name_of_checked {d : TypeDecl}
    (hok : d.checked h env = .ok t) :
    t.name = d.name ∧ t.id = h.statics.size := by
  cases d with
  | cls d =>
      obtain ⟨parent, interfaces, -, -, -, rfl, -⟩ := of_checked_cls hok
      exact ⟨rfl, rfl⟩
  | interface d =>
      obtain ⟨parents, -, rfl, -⟩ := of_checked_interface hok
      exact ⟨rfl, rfl⟩
  | enumeration d =>
      obtain ⟨interfaces, -, rfl, -⟩ := of_checked_enumeration hok
      exact ⟨rfl, rfl⟩
  | record d =>
      obtain ⟨interfaces, -, -, rfl, -⟩ := of_checked_record hok
      exact ⟨rfl, rfl⟩

/-- What has constants is no record. -/
theorem kind_of_checked {d : TypeDecl} {c : ClassDef}
    (hok : d.checked h env = .ok (.cls c)) (hconstants : d.constants ≠ []) :
    c.kind ≠ .record := by
  cases d with
  | enumeration d =>
      obtain ⟨interfaces, -, hc, -⟩ := of_checked_enumeration hok
      cases hc
      exact fun hkind => nomatch hkind
  | cls d | interface d | record d =>
      exact absurd rfl hconstants

end Checked

/-- Gives the constants and static fields of a type their values. -/
def initialise (E : Engine) (env : Env) (d : TypeDecl) (t : TypeDef) : Eval Unit := do
  match t with
  | .cls c => Eval.makeConstants E c env 0 d.constants
  | .interface _ => pure ()
  Eval.fillStatics E t.id d.name env d.staticFields
  Eval.modify (·.endDeclaration t.id)

end TypeDecl

/-! ### The two ways in which a declaration begins -/

/-- Between two heaps nothing happened to the declared types and to the scopes. -/
def Heap.SameTypes (h h' : Heap) : Prop := h'.registry = h.registry ∧ h'.scopes = h.scopes

/-- A check fails, perhaps after room has been made for static fields. -/
inductive Heap.Refuses (cause : Cause) : Heap → Heap → Prop
  | here (h : Heap) : Refuses cause h (h.note (.faulted cause))
  | later {h h' : Heap} : Refuses cause h.newStatics.2 h' → Refuses cause h h'

theorem Heap.Refuses.sameTypes
    {cause : Cause} {h h' : Heap}
    (hrefuses : h.Refuses cause h') :
    h.SameTypes h' := by
  induction hrefuses with
  | here h =>
      exact ⟨rfl, rfl⟩
  | later _ ih =>
      exact ih

namespace Eval

variable {α β γ : Type} {x : Eval β} {h h' : Heap} {o : Except Cause α}
variable {k : α → Context → Res β}

/-- A computation goes through some checks: it goes on with the value they give, or it ends with
their fault. -/
def Begins (x : Eval β) (h : Heap) (o : Except Cause α) (k : α → Context → Res β) : Prop :=
  match o with
  | .ok a => ∀ ctx, x ctx h = k a ctx
  | .error cause => ∀ ctx, ∃ h', x ctx h = .raise (.fault (.ofCause cause)) h' ∧ h.Refuses cause h'

namespace Begins

theorem pure
    {a : α}
    (hx : ∀ ctx, x ctx h = k a ctx) :
    Begins x h (Pure.pure a) k := by
  exact hx

theorem heap
    {f : Heap → Eval β}
    (hf : Begins (f h) h o k) :
    Begins (Eval.heap >>= f) h o k := by
  exact hf

/-- A check that gives a value. -/
theorem ofExcept
    {p : Except Cause γ} {f : γ → Eval β} {g : γ → Except Cause α}
    (hf : ∀ c, Begins (f c) h (g c) k) :
    Begins (Eval.ofExcept p >>= f) h (p >>= g) k := by
  cases p with
  | ok c =>
      exact hf c
  | error cause =>
      exact fun ctx => ⟨h.note (.faulted cause), rfl, .here h⟩

/-- A check that may only fail. -/
theorem unlessFault
    {cause? : Option Cause} {f : Unit → Eval β} {g : Unit → Except Cause α}
    (hf : Begins (f ()) h (g ()) k) :
    Begins (Eval.unlessFault cause? >>= f) h (passes cause? >>= g) k := by
  cases cause? with
  | none =>
      exact hf
  | some cause =>
      exact fun ctx => ⟨h.note (.faulted cause), rfl, .here h⟩

/-- A check that is made under a condition. -/
theorem unlessFaultIf
    {b : Bool} {cause? : Option Cause} {f : Unit → Eval β} {g : Unit → Except Cause α}
    (hf : Begins (f ()) h (g ()) k) :
    Begins (if b then Eval.unlessFault cause? >>= f else f ()) h
      (if b then passes cause? >>= g else g ()) k := by
  cases b with
  | false =>
      exact hf
  | true =>
      exact unlessFault hf

/-- Room is made for static fields, between two checks or after the last one. -/
theorem newStatics
    {f : Nat → Eval β}
    (hf : Begins (f h.statics.size) h.newStatics.2 o k) :
    Begins (Eval.change Heap.newStatics >>= f) h o k := by
  cases o with
  | ok a =>
      exact hf
  | error cause =>
      intro ctx
      obtain ⟨h', hraise, hrefuses⟩ := hf ctx
      exact ⟨h', hraise, .later hrefuses⟩

end Begins

/-! ### The four declarations -/

variable (E : Engine) (env : Env)

/-- What comes after the checks of a declaration. -/
def enterAndInitialise (E : Engine) (env : Env) (d : TypeDecl) (h : Heap) (t : TypeDef)
    (ctx : Context) : Res Unit :=
  d.initialise E env t ctx (h.newStatics.2.enterType env t)

theorem declareClass_begins
    (d : ClassDecl Expr Stmt) (h : Heap) :
    Begins (declareClass E d env) h ((TypeDecl.cls d).checked h env)
      (enterAndInitialise E env (.cls d) h) := by
  unfold declareClass
  refine .heap ?_
  dsimp only [TypeDecl.checked]
  cases hp : d.parent with
  | none =>
      simp only [pure_bind]
      refine .ofExcept fun interfaces => ?_
      refine .unlessFault (.newStatics (.unlessFaultIf (.pure fun ctx => ?_)))
      simp only [enterAndInitialise, ClassDecl.toClass, hp]
      rfl
  | some t =>
      simp only [pure_bind]
      refine .ofExcept fun parent => .ofExcept fun interfaces => ?_
      refine .unlessFault (.newStatics (.unlessFaultIf (.pure fun ctx => ?_)))
      simp only [enterAndInitialise, ClassDecl.toClass, hp]
      rfl

theorem declareInterface_begins
    (d : InterfaceDecl Expr Stmt) (h : Heap) :
    Begins (declareInterface E d env) h ((TypeDecl.interface d).checked h env)
      (enterAndInitialise E env (.interface d) h) := by
  refine .heap (.ofExcept fun parents => .unlessFault (.newStatics (.pure fun ctx => ?_)))
  rfl

theorem declareEnum_begins
    (d : EnumDecl Expr Stmt) (h : Heap) :
    Begins (declareEnum E d env) h ((TypeDecl.enumeration d).checked h env)
      (enterAndInitialise E env (.enumeration d) h) := by
  refine .heap (.ofExcept fun interfaces => .newStatics (.unlessFault (.pure fun ctx => ?_)))
  rfl

theorem declareRecord_begins
    (d : RecordDecl Stmt) (h : Heap) :
    Begins (declareRecord d env) h ((TypeDecl.record d).checked h env)
      (enterAndInitialise E env (.record d) h) := by
  refine .heap (.ofExcept fun interfaces => .unlessFault (.newStatics (.unlessFault
    (.pure fun ctx => ?_))))
  rfl

/-- Each declaration goes through its checks and then enters its type. -/
theorem dispatch_declaration
    (d : TypeDecl) (h : Heap) :
    Begins (dispatch E d.statement env) h (d.checked h env) fun t ctx =>
      complete (d.initialise E env t) ctx (h.newStatics.2.enterType env t) := by
  have hcomplete {x : Eval Unit}
      (hx : Begins x h (d.checked h env) (enterAndInitialise E env d h)) :
      Begins (complete x) h (d.checked h env) fun t ctx =>
        complete (d.initialise E env t) ctx (h.newStatics.2.enterType env t) := by
    cases hchecked : d.checked h env with
    | ok t =>
        rw [hchecked] at hx
        intro ctx
        rw [complete, bind_apply]
        exact (congrArg (Res.bind · _) (hx ctx)).trans (bind_apply _ _ ctx _).symm
    | error cause =>
        rw [hchecked] at hx
        intro ctx
        obtain ⟨h', hraise, hrefuses⟩ := hx ctx
        exact ⟨h', by rw [complete, bind_apply, hraise]; rfl, hrefuses⟩
  cases d with
  | cls d =>
      exact hcomplete (declareClass_begins E env d h)
  | interface d =>
      exact hcomplete (declareInterface_begins E env d h)
  | enumeration d =>
      exact hcomplete (declareEnum_begins E env d h)
  | record d =>
      exact hcomplete (declareRecord_begins E env d h)

end Eval
end ScriptEngine
