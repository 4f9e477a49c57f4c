import ScriptEngine.Proofs.Evaluation.Checks
import ScriptEngine.Proofs.Scopes.Snapshot

/-!
# Private members

Code runs in a class if the nearest method, constructor or initializer around it is one of that class.
A private member of a class is for code that runs in the class.

**Forms.** `Access` lists the forms of access to a member by its name.  A member of an instance is asked
for, assigned to or called; so is one of a class; the class above is asked for a method, or to run it;
and a value that was handed out is called, which may be a method.

**Guards.** `Access.guard?` says which member code has to be let use before a form does anything: the
field that is read or assigned, the first of the methods that are handed out together, the one method
that takes the arguments of a call.  Of other members nothing is asked: not where a static field is used
or a class hands out a static method, not where the class above is asked for a method, and not where a
method is called that was handed out.

**Access.** `Heap.Guards` says what becomes of each form.  Whom the guard does not let gets the fault of
the access, and nothing else has happened.  Those whom it lets all get the same.  A call, of whatever
form, that is let runs the method which takes the arguments, private or not.
-/

namespace ScriptEngine

/-- A form of access to a member by its name. -/
inductive Access
  | get (v : Value) (name : String)
  | set (v : Value) (name : String) (new : Value)
  /-- The member is read, and what an operator makes of it is assigned. -/
  | update (v : Value) (name : String) (op : AssignOp) (operand : Value)
  | call (v : Value) (name : String) (args : List Value) (typeArgs : List TypeExpr) (site : Span)
  | getAbove (name : String)
  | callAbove (name : String) (args : List Value) (site : Span)
  /-- A value is called that was handed out before. -/
  | apply (callee : Value) (args : List Value) (typeArgs : List TypeExpr) (site : Span)

/-- A member that code has to be let use. -/
structure Guard where
  visibility : Visibility
  member : String
  /-- The class that declares the member. -/
  declaring : String

namespace Guard

def ofField (name : String) (field : ClassDef × FieldDef) : Guard :=
  ⟨field.2.visibility, name, field.1.name⟩

def ofMethod (name : String) (m : Method) : Guard := ⟨m.visibility, name, m.owner⟩

/-- Code of a scope may use the member. -/
def Lets (g : Guard) (h : Heap) (env : Env) : Prop :=
  Eval.accessFault? h g.visibility g.member g.declaring env = none

/-- The fault of code that may not. -/
def cause (g : Guard) : Cause := .access g.visibility g.member g.declaring

end Guard

namespace Instance

variable (o : Instance) (h : Heap) (name : String)

def fieldGuard? : Option Guard := (o.cls.fieldNamed name).map (.ofField name)

/-- A field that has a value is read before a method is looked for. -/
def readGuard? : Option Guard :=
  match h.field? o name with
  | some _ => o.fieldGuard? name
  | none => (o.cls.usableMethods name).head?.map (.ofMethod name)

/-- A component of a record is not assigned to by anyone. -/
def writeGuard? : Option Guard := if o.cls.kind == .record then none else o.fieldGuard? name

/-- A method is looked for before a field is read. -/
def callGuard? (argc : Nat) : Option Guard :=
  match o.cls.usableMethods name with
  | [] =>
    match h.field? o name with
    | some _ => o.fieldGuard? name
    | none => none
  | candidates => (Overload.select Method.params candidates argc).map (.ofMethod name)

end Instance

/-- The code of a scope runs in a class of a name. -/
def Heap.RunsIn (h : Heap) (env : Env) (cls : String) : Prop :=
  ∃ r, h.scopes.receiver env = some r ∧ r.cls.name = cls

namespace Access

/-- What code of a scope gets by an access. -/
def perform (E : Engine) (env : Env) : Access → Eval Value
  | get v name => Eval.readMember v name env
  | set v name new => do
    Eval.writeMember v name new env
    pure new
  | update v name op operand => do
    let new ← Eval.assignedValue E op (Eval.readMember v name env) operand
    Eval.writeMember v name new env
    pure new
  | call v name args typeArgs site => Eval.callMember E v name args typeArgs env site
  | getAbove name => Eval.memberAbove name env
  | callAbove name args site => Eval.callAbove E name args env site
  | apply callee args typeArgs site => Eval.applyValue E callee args typeArgs site

/-- The member that an access is to, if code has to be let use it. -/
def guard? (h : Heap) : Access → Option Guard
  | get (.object o) name => o.readGuard? h name
  | set (.object o) name _ => o.writeGuard? name
  | update (.object o) name op _ =>
    match Eval.compoundOp op with
    | some _ => o.readGuard? h name
    | none => o.writeGuard? name
  | call (.object o) name args _ _ => o.callGuard? h name args.length
  | call (.classDef c) name args _ _ =>
    (Overload.select Method.params (c.staticMethodsNamed name) args.length).map (.ofMethod name)
  | _ => none

/-- Code of a scope is let. -/
def Lets (u : Access) (h : Heap) (env : Env) : Prop := ∀ g, u.guard? h = some g → g.Lets h env

/-- The method that a call runs, and its run. -/
def run? (E : Engine) (h : Heap) (env : Env) : Access → Option (Method × Eval Value)
  | call (.object o) name args _ site =>
    (Overload.select Method.params (o.cls.usableMethods name) args.length).map fun m =>
      (m, Eval.runMethod E o m args site)
  | call (.classDef c) name args _ site =>
    (Overload.select Method.params (c.staticMethodsNamed name) args.length).map fun m =>
      (m, Eval.runStatic E m args site)
  | callAbove name args site => do
    let r ← h.scopes.receiver env
    let parent ← r.cls.parent?
    let m ← Overload.select Method.params (parent.usableMethods name) args.length
    pure (m, Eval.runMethod E r.this m args site)
  | apply (.instanceMethod _ o lookup name) args _ site =>
    (Overload.select Method.params (lookup.usableMethods name) args.length).map fun m =>
      (m, Eval.runMethod E o m args site)
  | apply (.staticMethod _ c name) args _ site =>
    (Overload.select Method.params (c.staticMethodsNamed name) args.length).map fun m =>
      (m, Eval.runStatic E m args site)
  | _ => none

/-- An access that concerns no class above, and that is one step if it is to an instance. -/
def IsDirect : Access → Prop
  | update (.object _) .. | getAbove _ | callAbove .. => False
  | _ => True

/-- The class above is asked, on the instance that the code runs on. -/
def IsAbove : Access → Prop
  | getAbove _ | callAbove .. => True
  | _ => False

end Access

/-- Where code stands is told by its scopes: a block, a function and a thread stand where the code
around them does, and a method stands in its class. -/
structure Scopes.Places (s : Scopes) (env : Env) : Prop where
  block : (s.child env).2.receiver (s.child env).1 = s.receiver env
  function : ∀ name, (s.enter env name none).2.receiver (s.enter env name none).1 = s.receiver env
  method : ∀ name r, (s.enter env name (some r)).2.receiver (s.enter env name (some r)).1 = some r
  thread : (s.snapshot env).2.receiver (s.snapshot env).1 = s.receiver env

/-- What becomes of the access of code to a member. -/
structure Heap.Guards (h : Heap) (E : Engine) (ctx : Context) (env : Env) (u : Access) : Prop where
  /-- A private member is for code that runs in its class. -/
  hidden : ∀ g, u.guard? h = some g → g.visibility = .hidden → (g.Lets h env ↔ h.RunsIn env g.declaring)
  refused : ∀ g, u.guard? h = some g → ¬ g.Lets h env →
    u.perform E env ctx h = (Eval.fault g.cause : Eval Value) ctx h
  direct : u.IsDirect → ∀ env', u.Lets h env → u.Lets h env' →
    u.perform E env ctx h = u.perform E env' ctx h
  above : u.IsAbove → ∀ env', h.scopes.receiver env = h.scopes.receiver env' →
    u.perform E env ctx h = u.perform E env' ctx h
  run : ∀ m x, u.run? E h env = some (m, x) → u.Lets h env → u.perform E env ctx h = x ctx h
  places : (∀ id ∈ env, id < h.scopes.items.size) → h.scopes.Places env

namespace Eval

variable {E : Engine} {o : Instance} {name : String} {env env' : Env} {ctx : Context} {h : Heap}

/-- Exactly the code that runs in a class may use what is private in it. -/
theorem accessFault?_hidden_iff
    {member declaring : String} :
    accessFault? h .hidden member declaring env = none ↔ h.RunsIn env declaring := by
  unfold accessFault? mayAccess Heap.RunsIn
  cases h.scopes.receiver env with
  | none =>
      simp
  | some r =>
      simp

/-! ### Access that is required -/

variable {α β : Type} {g : Guard}

/-- Fails unless the code of a scope is let. -/
def require (g? : Option Guard) (env : Env) : Eval Unit :=
  match g? with
  | some g => requireAccess g.visibility g.member g.declaring env
  | none => pure ()

/-- Whatever the code is, it has to be let, and then the same is done. -/
def Guarded (g? : Option Guard) (ctx : Context) (h : Heap) (x : Env → Eval α) (y : Eval α) : Prop :=
  ∀ env, x env ctx h = (require g? env >>= fun _ => y) ctx h

namespace Guarded

variable {g? : Option Guard} {x : Env → Eval α} {y : Eval α}

theorem refused
    (hx : Guarded g? ctx h x y) (hg : g? = some g) (hlets : ¬ g.Lets h env) :
    x env ctx h = (fault g.cause : Eval α) ctx h := by
  unfold Guard.Lets accessFault? at hlets
  rw [hx env, hg, require, bind_apply, requireAccess_apply, accessFault?]
  split
  · next hmay =>
      exact absurd (if_pos hmay) hlets
  · rfl

theorem of_lets
    (hx : Guarded g? ctx h x y) (hlets : ∀ g, g? = some g → g.Lets h env) :
    x env ctx h = y ctx h := by
  rw [hx env, bind_apply]
  cases g? with
  | none =>
      rfl
  | some g =>
      rw [require, requireAccess_apply, hlets g rfl]
      rfl

theorem bind
    (hx : Guarded g? ctx h x y) (f : α → Eval β) :
    Guarded g? ctx h (fun env => x env >>= f) (y >>= f) := by
  intro env
  have hxy := hx env
  show (x env >>= f) ctx h = _
  rw [← bind_bind, bind_apply, hxy, ← bind_apply]

end Guarded

/-- Where nothing is asked everyone gets the same. -/
theorem Guarded.none
    (x : Eval α) :
    Guarded .none ctx h (fun _ => x) x := by
  exact fun _ => rfl

theorem checkField_eq
    (o : Instance) (name : String) (env : Env) :
    checkField o name env = require (o.fieldGuard? name) env := by
  unfold checkField Instance.fieldGuard?
  cases o.cls.fieldNamed name <;> rfl

/-- The field of an instance, or the first of its methods, is guarded when it is read. -/
theorem getInstanceMember_guarded
    (o : Instance) (name : String) (ctx : Context) (h : Heap) :
    ∃ y, Guarded (o.readGuard? h name) ctx h (getInstanceMember o name) y := by
  unfold Instance.readGuard?
  cases hvalue : h.field? o name with
  | some v =>
      refine ⟨pure v, fun env => ?_⟩
      unfold getInstanceMember
      rw [bind_apply, heap, Res.bind, hvalue, checkField_eq]
  | none =>
      cases hmethods : o.cls.usableMethods name with
      | nil =>
          refine ⟨if Builtin.hasMethod (.object o) name then bindBuiltin (.object o) name
            else fault (.missingMember o.cls.name name), fun env => ?_⟩
          unfold getInstanceMember
          rw [bind_apply, heap, Res.bind, hvalue, hmethods]
          rfl
      | cons m rest =>
          refine ⟨bindMethod o o.cls name, fun env => ?_⟩
          unfold getInstanceMember
          rw [bind_apply, heap, Res.bind, hvalue, hmethods]
          rfl

/-- A field is guarded when it is assigned to. -/
theorem assignField_guarded
    (o : Instance) (name : String) (v : Value) (ctx : Context) (h : Heap) :
    ∃ y, Guarded (o.writeGuard? name) ctx h (assignField o name v) y := by
  unfold Instance.writeGuard? Instance.fieldGuard?
  cases hrecord : o.cls.kind == .record with
  | true =>
      refine ⟨fun _ h => stored (some (.immutable "record component" name)) (·.setField o name v) h,
        fun env => ?_⟩
      rw [assignField_apply, assignFieldFault?, if_pos hrecord]
      rfl
  | false =>
      cases hfield : o.cls.fieldNamed name with
      | none =>
          refine ⟨modify (·.setField o name v), fun env => ?_⟩
          rw [assignField_apply, assignFieldFault?, if_neg (by simp [hrecord]), hfield]
          rfl
      | some d =>
          refine ⟨fun _ h => stored ((fieldFault? h o d.2 name).or (d.2.type.bind fun t =>
            h.checkFault? v t (o.bindingsAt d.1.name) s!"field '{name}' of {o.cls.name}"))
            (·.setField o name v) h, fun env => ?_⟩
          rw [assignField_apply, assignFieldFault?, if_neg (by simp [hrecord]), hfield]
          exact (stored_or (requireAccess_apply _ _ _ _ ctx h) rfl).symm

/-- Of several methods the one that takes the arguments of a call is guarded, and it is what runs. -/
theorem selected_guarded
    (candidates : List Method) (argc : Nat) (run : Method → Eval α) (ctx : Context) (h : Heap) :
    ∃ y, Guarded ((Overload.select Method.params candidates argc).map (.ofMethod name)) ctx h
        (fun env => do
          let m ← selectMethod candidates argc
          requireAccess m.visibility name m.owner env
          run m) y ∧
      ∀ m, Overload.select Method.params candidates argc = some m → y = run m := by
  unfold selectMethod
  cases Overload.select Method.params candidates argc with
  | none =>
      refine ⟨fault (Overload.arityFault Method.params candidates argc), fun env => rfl, ?_⟩
      rintro _ ⟨⟩
  | some m =>
      refine ⟨run m, fun env => rfl, ?_⟩
      rintro _ ⟨⟩
      rfl

theorem callInstanceMember_guarded
    (E : Engine) (o : Instance) (name : String) (args : List Value) (typeArgs : List TypeExpr)
    (site : Span) (ctx : Context) (h : Heap) :
    ∃ y, Guarded (o.callGuard? h name args.length) ctx h
        (fun env => callInstanceMember E o name args typeArgs env site) y ∧
      ∀ m, Overload.select Method.params (o.cls.usableMethods name) args.length = some m →
        y = runMethod E o m args site := by
  unfold Instance.callGuard? callInstanceMember
  cases o.cls.usableMethods name with
  | nil =>
      have hnone (m : Method) : Overload.select Method.params [] args.length ≠ some m := by
        rintro ⟨⟩
      cases hvalue : h.field? o name with
      | some v =>
          refine ⟨E.call v args typeArgs site, fun env => ?_, fun m hm => absurd hm (hnone m)⟩
          dsimp only
          rw [bind_apply, heap, Res.bind, hvalue, checkField_eq]
      | none =>
          refine ⟨Builtin.callMethod E (.object o) name args, fun env => ?_,
            fun m hm => absurd hm (hnone m)⟩
          dsimp only
          rw [bind_apply, heap, Res.bind, hvalue]
          rfl
  | cons m₀ rest =>
      exact selected_guarded (m₀ :: rest) args.length _ ctx h

theorem callClassMember_guarded
    (E : Engine) (c : ClassDef) (name : String) (args : List Value) (typeArgs : List TypeExpr)
    (site : Span) (ctx : Context) (h : Heap) :
    ∃ y, Guarded ((Overload.select Method.params (c.staticMethodsNamed name) args.length).map
          (.ofMethod name)) ctx h
        (fun env => callClassMember E c name args typeArgs env site) y ∧
      ∀ m, Overload.select Method.params (c.staticMethodsNamed name) args.length = some m →
        y = runStatic E m args site := by
  unfold callClassMember
  cases c.staticMethodsNamed name with
  | nil =>
      refine ⟨do
        match (← heap).classStatic? c name with
        | some v => E.call v args typeArgs site
        | none => Builtin.callMethod E (.classDef c) name args, fun env => rfl, ?_⟩
      rintro _ ⟨⟩
  | cons m₀ rest =>
      exact selected_guarded (m₀ :: rest) args.length _ ctx h

/-! ### Every access -/

/-- A value that was handed out is called by everyone alike; a method runs, whatever its visibility. -/
theorem applyValue_run
    {callee : Value} {args : List Value} {typeArgs : List TypeExpr} {site : Span} {m : Method}
    {x : Eval Value}
    (hrun : (Access.apply callee args typeArgs site).run? E h env = some (m, x)) :
    applyValue E callee args typeArgs site = x := by
  cases callee with
  | instanceMethod id o lookup name =>
      obtain ⟨m', hselect, heq⟩ := Option.map_eq_some_iff.mp hrun
      cases heq
      unfold applyValue selectMethod
      dsimp only
      rw [hselect]
      rfl
  | staticMethod id c name =>
      obtain ⟨m', hselect, heq⟩ := Option.map_eq_some_iff.mp hrun
      cases heq
      unfold applyValue selectMethod
      dsimp only
      rw [hselect]
      rfl
  | _ => cases hrun

/-- Any access but a compound assignment and one to the class above is guarded, and a call that is let
runs its method. -/
theorem perform_guarded
    {u : Access} (hdirect : u.IsDirect) (E : Engine) (ctx : Context) :
    ∃ y, Guarded (u.guard? h) ctx h (fun env => u.perform E env) y ∧
      ∀ env m x, u.run? E h env = some (m, x) → y = x := by
  cases u with
  | get v name =>
      cases hv : v with
      | object o =>
          obtain ⟨y, hy⟩ := getInstanceMember_guarded o name ctx h
          refine ⟨y, hy, ?_⟩
          rintro _ _ _ ⟨⟩
      | _ =>
          refine ⟨readMember v name [], fun env => by rw [hv]; rfl, ?_⟩
          rintro _ _ _ ⟨⟩
  | set v name new =>
      cases hv : v with
      | object o =>
          obtain ⟨y, hy⟩ := assignField_guarded o name new ctx h
          refine ⟨_, hy.bind fun _ => pure new, ?_⟩
          rintro _ _ _ ⟨⟩
      | _ =>
          refine ⟨writeMember v name new [] >>= fun _ => pure new, fun env => by rw [hv]; rfl, ?_⟩
          rintro _ _ _ ⟨⟩
  | update v name op operand =>
      cases hv : v with
      | object o =>
          rw [hv] at hdirect
          exact hdirect.elim
      | _ =>
          refine ⟨(Access.update v name op operand).perform E [], fun env => by rw [hv]; rfl, ?_⟩
          rintro _ _ _ ⟨⟩
  | call v name args typeArgs site =>
      cases hv : v with
      | object o =>
          obtain ⟨y, hy, hrun⟩ := callInstanceMember_guarded E o name args typeArgs site ctx h
          refine ⟨y, hy, fun _ m x hm => ?_⟩
          obtain ⟨m', hselect, heq⟩ := Option.map_eq_some_iff.mp hm
          cases heq
          exact hrun m hselect
      | classDef c =>
          obtain ⟨y, hy, hrun⟩ := callClassMember_guarded E c name args typeArgs site ctx h
          refine ⟨y, hy, fun _ m x hm => ?_⟩
          obtain ⟨m', hselect, heq⟩ := Option.map_eq_some_iff.mp hm
          cases heq
          exact hrun m hselect
      | _ =>
          refine ⟨callMember E v name args typeArgs [] site, fun env => by rw [hv]; rfl, ?_⟩
          rintro _ _ _ ⟨⟩
  | getAbove name =>
      exact hdirect.elim
  | callAbove name args site =>
      exact hdirect.elim
  | apply callee args typeArgs site =>
      exact ⟨_, .none (applyValue E callee args typeArgs site), fun _ _ _ hrun => applyValue_run hrun⟩

/-- The class above is asked for a method on the instance that the code runs on. -/
theorem superTarget_congr
    (hreceiver : h.scopes.receiver env = h.scopes.receiver env') :
    superTarget env ctx h = superTarget env' ctx h := by
  unfold superTarget
  rw [bind_apply, bind_apply, heap, Res.bind, Res.bind, hreceiver]

theorem memberAbove_congr
    (hreceiver : h.scopes.receiver env = h.scopes.receiver env') :
    memberAbove name env ctx h = memberAbove name env' ctx h := by
  unfold memberAbove
  rw [bind_apply, bind_apply, superTarget_congr hreceiver]

theorem callAbove_congr
    {args : List Value} {site : Span} (hreceiver : h.scopes.receiver env = h.scopes.receiver env') :
    callAbove E name args env site ctx h = callAbove E name args env' site ctx h := by
  unfold callAbove
  rw [bind_apply, bind_apply, superTarget_congr hreceiver]

/-- A method of the class above is run, whatever its visibility. -/
theorem callAbove_run
    {args : List Value} {site : Span} {m : Method} {x : Eval Value}
    (hrun : (Access.callAbove name args site).run? E h env = some (m, x)) :
    callAbove E name args env site ctx h = x ctx h := by
  simp only [Access.run?, Option.bind_eq_bind, Option.bind_eq_some_iff, Option.pure_def,
    Option.some.injEq] at hrun
  obtain ⟨r, hreceiver, parent, hparent, m', hselect, heq⟩ := hrun
  cases heq
  have htarget : superTarget env ctx h = .value (r.this, parent) h := by
    unfold superTarget
    rw [bind_apply, heap, Res.bind, hreceiver]
    dsimp only
    rw [hparent]
    rfl
  unfold callAbove
  rw [bind_apply, htarget, Res.bind]
  dsimp only
  cases hmethods : parent.usableMethods name with
  | nil =>
      rw [hmethods] at hselect
      cases hselect
  | cons m₀ rest =>
      rw [hmethods] at hselect
      dsimp only
      rw [selectMethod, hselect]
      rfl

/-- A compound assignment that is refused does nothing either. -/
theorem update_refused
    {op : AssignOp} {operand : Value}
    (hg : (Access.update (.object o) name op operand).guard? h = some g) (hlets : ¬ g.Lets h env) :
    (Access.update (.object o) name op operand).perform E env ctx h =
      (fault g.cause : Eval Value) ctx h := by
  simp only [Access.guard?, Access.perform, assignedValue] at hg ⊢
  cases hop : compoundOp op with
  | some bop =>
      rw [hop] at hg
      obtain ⟨y, hy⟩ := getInstanceMember_guarded o name ctx h
      have hread : readMember (.object o) name env ctx h = (fault g.cause : Eval Value) ctx h :=
        hy.refused hg hlets
      dsimp only
      rw [bind_bind, bind_apply, hread]
      rfl
  | none =>
      rw [hop] at hg
      obtain ⟨y, hy⟩ := assignField_guarded o name operand ctx h
      have hwrite : writeMember (.object o) name operand env ctx h =
          (fault g.cause : Eval Unit) ctx h := hy.refused hg hlets
      show (writeMember (.object o) name operand env >>= fun _ => pure operand) ctx h = _
      rw [bind_apply, hwrite]
      rfl

end Eval

namespace Scopes

variable {s : Scopes} {env : Env}

/-- A further scope changes nothing for code that does not see it. -/
theorem receiver_add
    (hin : ∀ id ∈ env, id < s.items.size) (sc : Scope) :
    (s.add sc).2.receiver env = s.receiver env := by
  refine receiver_of_agree fun id hid => ?_
  rw [scope_add, if_neg (Nat.ne_of_lt (hin id hid))]

/-- A further scope has the receiver of its frame, or else of the scopes around it. -/
theorem receiver_cons_add
    (hin : ∀ id ∈ env, id < s.items.size) (sc : Scope) :
    (s.add sc).2.receiver (s.items.size :: env) = (sc.frame.bind (·.receiver)).or (s.receiver env) := by
  rw [receiver, scope_add, if_pos rfl, receiver_add hin sc]
  obtain _ | ⟨_, _ | r, _⟩ := sc.frame <;> rfl

theorem places
    (hin : ∀ id ∈ env, id < s.items.size) :
    s.Places env where
  block := receiver_cons_add hin _
  function _ := receiver_cons_add hin _
  method _ _ := receiver_cons_add hin _
  thread := receiver_snapshot s env

end Scopes

/-- An access is one step, or it concerns the class above, or it is a compound assignment. -/
theorem Access.form
    (u : Access) :
    u.IsDirect ∨ u.IsAbove ∨ ∃ o name op operand, u = .update (.object o) name op operand := by
  cases u with
  | update v name op operand =>
      cases v <;> simp [IsDirect]
  | _ => simp [IsDirect, IsAbove]

/-- Members are guarded as `Access.guard?` says: whoever is not let gets the fault of the access and
nothing else happens; private members are for the code that runs in their class; all who are let get
the same; and where nothing is asked everyone is let. -/
theorem Heap.guards_access
    (h : Heap) (E : Engine) (ctx : Context) (env : Env) (u : Access) :
    h.Guards E ctx env u where
  hidden g _ hhidden := by
    rw [Guard.Lets, hhidden]
    exact Eval.accessFault?_hidden_iff
  refused g hg hlets := by
    obtain hdirect | habove | ⟨o, name, op, operand, rfl⟩ := u.form
    · obtain ⟨y, hy, -⟩ := Eval.perform_guarded hdirect E ctx
      exact hy.refused hg hlets
    · cases u with
      | getAbove name =>
          cases hg
      | callAbove name args site =>
          cases hg
      | _ => exact habove.elim
    · exact Eval.update_refused hg hlets
  direct hdirect env' hlets hlets' := by
    obtain ⟨y, hy, -⟩ := Eval.perform_guarded hdirect E ctx
    exact (hy.of_lets hlets).trans (hy.of_lets hlets').symm
  above habove env' hreceiver := by
    cases u with
    | getAbove name =>
        exact Eval.memberAbove_congr hreceiver
    | callAbove name args site =>
        exact Eval.callAbove_congr hreceiver
    | _ => exact habove.elim
  run m x hrun hlets := by
    obtain hdirect | habove | ⟨o, name, op, operand, rfl⟩ := u.form
    · obtain ⟨y, hy, hy'⟩ := Eval.perform_guarded hdirect E ctx
      rw [← hy' env m x hrun]
      exact hy.of_lets hlets
    · cases u with
      | getAbove name =>
          cases hrun
      | callAbove name args site =>
          exact Eval.callAbove_run hrun
      | _ => exact habove.elim
    · cases hrun
  places := Scopes.places

/-- A private static method that does nothing, and its class. -/
def secretMethod : Method :=
  ⟨"secret", "Sealed", [], [], none, some [], .hidden, true, []⟩

def sealedClass : ClassDef :=
  ⟨{ (default : ClassLayer) with name := "Sealed", staticMethods := [secretMethod], owned := nofun }, []⟩

/-- Outside of any method a call of the private method through its class is refused; handed out by the
class it is called. -/
theorem Heap.guards_access_sealed :
    let h := Heap.empty
    let E : Engine := ⟨fun _ => Eval.giveUp, 0⟩
    let through : Access := .call (.classDef sealedClass) "secret" [] [] default
    let handedOut : Access := .apply (.staticMethod 0 sealedClass "secret") [] [] default
    ¬ h.RunsIn [] "Sealed" ∧
      through.perform E [] (.ofLimit 1) h =
        (Eval.fault (.access .hidden "secret" "Sealed") : Eval Value) (.ofLimit 1) h ∧
      handedOut.perform E [] (.ofLimit 1) h =
        Eval.runStatic E secretMethod [] default (.ofLimit 1) h := by
  intro h E through handedOut
  have hstranger : ¬ h.RunsIn [] "Sealed" := by
    rintro ⟨r, hr, -⟩
    cases hr
  have hguards (u : Access) : h.Guards E (.ofLimit 1) [] u := Heap.guards_access h E (.ofLimit 1) [] u
  have hguard : through.guard? h = some (.ofMethod "secret" secretMethod) := rfl
  refine ⟨hstranger, (hguards through).refused _ hguard ?_, (hguards handedOut).run _ _ rfl ?_⟩
  · exact fun hlets => hstranger (((hguards through).hidden _ hguard rfl).mp hlets)
  · rintro g ⟨⟩

end ScriptEngine
