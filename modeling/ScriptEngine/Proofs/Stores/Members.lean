import ScriptEngine.Proofs.Evaluation.Checks
import ScriptEngine.Proofs.Stores.Concurrency

/-!
# Builtins, members and expressions that keep the stores

An assignment to a field, to a static field or to a variable stores what its checks have let pass.
So a field that must not change is assigned to only while its instance is under construction, and
everything that is stored obeys the type declared for it.
-/

namespace ScriptEngine
namespace Keeps

variable {S : World} {E : Engine} {args : List Value} {v : Value}

/-! ### Builtin methods -/

@[grind ←]
theorem callString
    (s name : String) (args : List Value) :
    Keeps S (Builtin.callString s name args) := by
  refine look.skip fun h => (answer (Plain.knows _ _)).skip fun pieces => ?_
  split
  · refine makeArray (knows_list.mpr fun v hv => ?_)
    obtain ⟨s, -, rfl⟩ := List.mem_map.mp hv
    exact knows_vstr
  · exact answer (Builtin.knows_stringMethod _ _)

@[grind ←]
theorem callClass
    (c : ClassDef) (name : String) (args : List Value) :
    Keeps S (Builtin.callClass c name args) := by
  refine look.andThen fun h => ?_
  have hh := Knows.self S h
  split
  · exact makeArray (knows_statics.mp (hh.staticsOf c.id)).2
  · exact answer (Builtin.knows_constantNamed hh c)
  · exact pure knows_vstr trivial
  · exact pure knows_vstr trivial
  · exact fault _

/-- What every value can be asked. -/
theorem callMethod
    [Careful E] {receiver : Value} (name : String) (hreceiver : Knows S receiver)
    (hargs : Knows S args) :
    Keeps S (Builtin.callMethod E receiver name args) := by
  unfold Builtin.callMethod
  split <;> grind

/-! ### Builtin functions -/

theorem printText
    (s : String) :
    Keeps S (Builtin.printText s) := by
  exact modifyQuietly fun w h _ _ => .setOutput w h _

theorem writeArgs
    [Careful E] (hargs : Knows S args) :
    Keeps S (Builtin.writeArgs E args) := by
  exact (texts hargs).skip fun parts => pure (knows_string _) trivial

theorem sleep
    (args : List Value) :
    Keeps S (Builtin.sleep args) := by
  refine (answer (Plain.knows _ _)).skip fun _ => look.skip fun h => ?_
  refine (answer (Plain.knows _ _)).skip fun n => ?_
  have hwait (wake : Nat) : Keeps S (Eval.await (.time wake) fun h : Heap =>
      if wake ≤ h.clock then some (Value.nil, h) else none) := by
    refine await fun k w h a h' _ _ hstep => ?_
    split at hstep
    · cases hstep
      exact ⟨w, .refl, knows_vnil, trivial⟩
    · cases hstep
  dsimp only
  split
  · exact yield.skip fun _ => hwait _
  · exact hwait _

theorem randomNumber
    (args : List Value) :
    Keeps S (Builtin.randomNumber args) := by
  refine (answer (Plain.knows _ _)).skip fun _ => ?_
  refine (quietly (Q := fun _ => True) fun w h _ _ => ⟨.newNumber w h, knows_nat _, trivial⟩).skip
    fun n => pure knows_vfloat trivial

theorem callNative
    [Careful E] (f : Native) (typeArgs : List TypeExpr) (hargs : Knows S args) :
    Keeps S (Builtin.callNative E f args typeArgs) := by
  have hfirst := Builtin.knows_argument hargs 0
  unfold Builtin.callNative
  split
  · exact (writeArgs hargs).skip fun s => (printText s).skip fun _ => pure knows_vnil trivial
  · exact (writeArgs hargs).skip fun s => (printText _).skip fun _ => pure knows_vnil trivial
  · refine (answer (Plain.knows _ _)).skip fun _ => (text hfirst).skip fun s => ?_
    exact pure knows_vstr trivial
  · refine query (fun w h _ _ => Builtin.knows_rangeItems) fun items => ?_
    exact newArray (Knows.self S items)
  · exact makeCollection _ typeArgs hargs
  · exact makeChannel typeArgs args
  · exact startAsync hargs
  · exact makePromise hargs
  · exact makeCompletable args
  · exact (settleFuture _ hfirst).skip fun _ => pure knows_vbool trivial
  · exact (settleFuture _ hfirst).skip fun _ => pure knows_vbool trivial
  · exact sleep args
  · exact randomNumber args
  · exact randomNumber args
  · refine look.skip fun h => ?_
    split
    · next r heq => exact answer (Builtin.knows_pureNative _ r heq)
    · exact pure knows_vnil trivial

/-! ### Changes after checks -/

/-- A change that comes after a check. -/
theorem stored
    {x : Eval Unit} {fault? : Heap → Option Cause} {f : Heap → Heap}
    (hx : ∀ c h, x c h = Eval.stored (fault? h) f h)
    (hf : ∀ k w h, S ⊆ w → Agree [k] w h → fault? h = none → ∃ w', Path k w h k w' (f h)) :
    Keeps S x := by
  intro c k h hk hinv
  rw [hx]
  cases hfault : fault? h with
  | none =>
      refine ended hk hinv fun w hS hs => ?_
      obtain ⟨w', hp⟩ := hf k w h hS hs hfault
      exact ⟨w', hp, knows_unit (), trivial⟩
  | some cause =>
      exact failed hinv knows_fault fun w _ => ⟨w, .one (.quiet (.note w h _))⟩

/-! ### Operators -/

theorem binaryOp
    [Careful E] {a b : Value} (op : BinaryOp) (ha : Knows S a) (hb : Knows S b) :
    Keeps S (Eval.binaryOp E op a b) := by
  have htexts : Keeps S (do
      let left ← E.text a
      let right ← E.text b
      Pure.pure (Value.str (left ++ right))) := by
    exact (text ha).skip fun left => (text hb).skip fun right => pure knows_vstr trivial
  unfold Eval.binaryOp
  split
  · exact pure knows_vint trivial
  · exact htexts
  · exact htexts
  · refine quietly fun w h _ hf => ⟨.newArray h ?_, knows_varray, trivial⟩
    exact (hf.known.array _).append (hf.known.array _)
  · exact look.skip fun h => answer (Eval.knows_operate _ _ _)

theorem negate
    (v : Value) :
    Keeps S (Eval.negate v) := by
  unfold Eval.negate
  split
  · exact pure knows_vint trivial
  · exact pure knows_vfloat trivial
  · exact look.skip fun h => fault _

/-! ### Reading -/

theorem bindBuiltin
    {receiver : Value} (name : String) (hreceiver : Knows S receiver) :
    Keeps S (Eval.bindBuiltin receiver name) := by
  exact quietly fun w h hS _ => ⟨.newNumber w h, hreceiver.mono hS, trivial⟩

theorem bindMethod
    {o : Instance} (lookup : ClassDef) (name : String) (ho : Knows S o) :
    Keeps S (Eval.bindMethod o lookup name) := by
  exact quietly fun w h hS _ => ⟨.newNumber w h, ho.mono hS, trivial⟩

theorem bindStatic
    (c : ClassDef) (name : String) :
    Keeps S (Eval.bindStatic c name) := by
  exact quietly fun w h _ _ => ⟨.newNumber w h, knows_vstatic, trivial⟩

theorem checkField
    (o : Instance) (name : String) (env : Env) :
    Keeps S (Eval.checkField o name env) := by
  unfold Eval.checkField
  split
  · exact requireAccess _ _ _ _
  · exact pure (knows_unit _) trivial

theorem getInstanceMember
    {o : Instance} (name : String) (env : Env) (ho : Knows S o) :
    Keeps S (Eval.getInstanceMember o name env) := by
  refine look.andThen fun h => ?_
  have hfield := (Knows.self S h).field? o name
  split
  · next v heq =>
      rw [heq] at hfield
      exact (checkField o name env).skip fun _ => pure hfield trivial
  · refine more ?_ _
    split
    · exact (requireAccess _ _ _ _).skip fun _ => bindMethod _ _ ho
    · exact ite (fun _ => bindBuiltin name ho) fun _ => fault _

theorem getClassMember
    {c : ClassDef} (name : String) (hc : Knows S c) :
    Keeps S (Eval.getClassMember c name) := by
  refine look.andThen fun h => ?_
  have hslot := (Knows.self S h).classStatic? c name
  split
  · next v heq =>
      rw [heq] at hslot
      exact pure hslot trivial
  · refine ite (fun _ => bindStatic c name) fun _ => ?_
    exact ite (fun _ => bindBuiltin name (knows_vclass.mpr (hc.more _))) fun _ => fault _

theorem getBuiltinMember
    (name : String) (hv : Knows S v) :
    Keeps S (Eval.getBuiltinMember v name) := by
  refine look.skip fun h => ?_
  split
  · exact pure (Builtin.knows_count _) trivial
  · exact ite (fun _ => bindBuiltin name hv) fun _ => fault _

theorem readMember
    (name : String) (env : Env) (hv : Knows S v) :
    Keeps S (Eval.readMember v name env) := by
  unfold Eval.readMember
  split
  · exact getInstanceMember name env hv
  · exact getClassMember name hv
  · next i =>
    refine look.andThen fun h => ?_
    have hslot := (Knows.self S h).interfaceStatic? i name
    split
    · next v heq =>
        rw [heq] at hslot
        exact pure hslot trivial
    · exact fault _
  · have hmember := Builtin.knows_member? (w := S)
    split
    · next m _ v heq =>
        have hv := hmember m name
        rw [heq] at hv
        exact pure hv trivial
    · exact fault _
  · next id =>
      refine look.andThen fun h => ?_
      have hentry := KeyedMap.knows_get? ((Knows.self S h).map id) (.str name)
      split
      · next v heq =>
          rw [heq] at hentry
          exact pure hentry trivial
      · exact ite (fun _ => bindBuiltin name knows_vmap) fun _ => pure knows_vnil trivial
  · exact getBuiltinMember name hv

theorem readElement
    (v key : Value) :
    Keeps S (Eval.readElement v key) := by
  refine look.andThen fun h => answer (Eval.knows_elementOf (Knows.self S h) v key)

theorem currentValue
    (env : Env) (name : String) :
    Keeps S (Eval.currentValue env name) := by
  refine look.andThen fun h => ?_
  have hbinding := Scopes.knows_lookup (Knows.self S h).scopes env name
  split
  · next v heq =>
      rw [heq] at hbinding
      exact pure hbinding trivial
  · exact fault _

/-! ### Assignments -/

/-- What an assignment that finds no fault may do to a field. -/
theorem assignFieldFault?_eq_none
    {h : Heap} {o : Instance} {name : String} {env : Env}
    (hnone : Eval.assignFieldFault? h o name v env = none) :
    o.cls.kind ≠ .record ∧ (o.Immutable name → (h.object o.id).constructing = true) ∧
      o.Admits name v := by
  rw [Eval.assignFieldFault?] at hnone
  split at hnone
  · cases hnone
  next hkind =>
    have hkind' : o.cls.kind ≠ .record := by simpa using hkind
    refine ⟨hkind', ?_, ?_⟩
    · rintro (hrecord | ⟨d, f, hfound, himmutable⟩)
      · exact absurd hrecord hkind'
      · simp only [hfound, Option.or_eq_none_iff] at hnone
        by_contra hdone
        simp [Eval.fieldFault?, himmutable, hdone] at hnone
    · intro d f hfound _
      simp only [hfound, Option.or_eq_none_iff] at hnone
      exact .of_checkFault? hnone.2.2

theorem assignField
    {o : Instance} (name : String) (env : Env) (ho : Knows S o) (hv : Knows S v) :
    Keeps S (Eval.assignField o name v env) := by
  refine stored (Eval.assignField_apply o name v env) fun k w h hS hs hnone => ⟨w, .one ?_⟩
  obtain ⟨hkind, himmutable, hadmits⟩ := assignFieldFault?_eq_none hnone
  exact .write (knows_instance.mp (ho.mono hS)).1 (hv.mono hS) himmutable hkind hadmits

theorem assignStatic
    (c : ClassDef) (name : String) (hv : Knows S v) :
    Keeps S (Eval.assignStatic c name v) := by
  refine stored (Eval.assignStatic_apply c name v) fun k w h hS hs hnone => ⟨w, ?_⟩
  rw [Eval.assignStaticFault?] at hnone
  rw [Eval.storeStatic]
  split at hnone
  · cases hnone
  · next owner slot hhome =>
      split at hnone
      · cases hnone
      · next hkind =>
          obtain ⟨d, -, hd⟩ := List.exists_of_findSome?_eq_some hhome
          obtain ⟨slot', hslot, heq⟩ := Option.map_eq_some_iff.mp hd
          cases heq
          exact .one (.assign hslot (by simpa using hkind) (hv.mono hS) (.of_checkFault? hnone))

theorem insertNamed
    (id : Nat) (name : String) (hv : Knows S v) :
    Keeps S (Eval.modify (·.insertInMap id (.str name) (.str name) v)) := by
  exact insertInMap id (fun _ => .str name) knows_vstr hv

theorem writeMember
    {target : Value} (name : String) (env : Env) (htarget : Knows S target) (hv : Knows S v) :
    Keeps S (Eval.writeMember target name v env) := by
  unfold Eval.writeMember
  split
  · exact assignField name env htarget hv
  · exact assignStatic _ name hv
  · exact fault _
  · exact insertNamed _ name hv
  · exact look.skip fun h => fault _

/-- Code may read type parameters as its receiver does. -/
theorem meaning_bindingsInMethod
    {w : World} {h : Heap} (hh : Knows w h) (env : Env) :
    Meaning w (Eval.bindingsInMethod h env) := by
  have hreceiver := Scopes.knows_receiverOf hh.scopes env
  rw [Eval.bindingsInMethod]
  split
  · next r heq =>
      rw [heq] at hreceiver
      exact .within r.this r.cls.name (knows_instance.mp hreceiver).1
  · exact .plain

theorem assignName
    (env : Env) (name : String) (hv : Knows S v) :
    Keeps S (Eval.assignName env name v) := by
  refine stored (Eval.assignName_apply env name v) fun k w h hS hs hnone => ⟨w, .one (.quiet ?_)⟩
  refine .assign h env name (hv.mono hS) fun id b hresolve t ht => ?_
  refine ⟨_, meaning_bindingsInMethod hs.fits.known env, ?_⟩
  have hchecked := (Option.or_eq_none_iff.mp hnone).1
  refine ObeysOption.of_checkFault? hchecked t ?_
  rw [Scopes.declaredType, hresolve]
  exact ht

theorem assignElement
    {c : Collection} {key : Value} (hc : Knows S c) (hkey : Knows S key) (hv : Knows S v) :
    Keeps S (Eval.assignElement c key v) := by
  refine (checkElement c (some key) v).bind fun _ htakes => more ?_ _
  split
  · next hkind =>
      exact look.skip fun h => storeEntry _ hc hkey hv fun _ => htakes.2 hkind key rfl
  · refine (itemPlace c key).skip fun i => storeItem hc hv htakes.1 fun xs u hu => ?_
    exact Array.mem_or_eq_of_mem_setIfInBounds hu

theorem writeElement
    {target key : Value} (htarget : Knows S target) (hkey : Knows S key) (hv : Knows S v) :
    Keeps S (Eval.writeElement target key v) := by
  unfold Eval.writeElement
  split
  · refine look.skip fun h => (answer (Plain.knows _ _)).skip fun i => ?_
    exact modifyArray _ (knows_change.mpr fun u xs hu hxs => hxs.setIfInBounds (hv.mono hu))
  · exact insertInMap _ (fun h => h.key key) hkey hv
  · exact ite (fun _ => look.skip fun h => fault _) fun _ => assignElement htarget hkey hv
  · exact look.skip fun h => fault _

/-! ### Calls -/

section Calls

variable [Careful E]

theorem applyValue
    {callee : Value} (typeArgs : List TypeExpr) (site : Span) (hcallee : Knows S callee)
    (hargs : Knows S args) :
    Keeps S (Eval.applyValue E callee args typeArgs site) := by
  unfold Eval.applyValue
  split
  · exact callFunction _ typeArgs site hargs
  · exact callNative _ _ hargs
  · exact (selectMethod _ _).skip fun m => runMethod m site hcallee hargs
  · exact (selectMethod _ _).skip fun m => runStatic m site hargs
  · exact callMethod _ hcallee hargs
  · exact newInstance typeArgs site hcallee hargs
  · exact look.skip fun h => fault _

theorem callInstanceMember
    {o : Instance} (name : String) (typeArgs : List TypeExpr) (env : Env) (site : Span)
    (ho : Knows S o) (hargs : Knows S args) :
    Keeps S (Eval.callInstanceMember E o name args typeArgs env site) := by
  unfold Eval.callInstanceMember
  split
  · refine look.andThen fun h => ?_
    have hfield := (Knows.self S h).field? o name
    split
    · next v heq =>
        rw [heq] at hfield
        refine (checkField o name env).skip fun _ => ?_
        exact Careful.call typeArgs site hfield (hargs.more _)
    · exact (callMethod name ho hargs).more _
  · refine (selectMethod _ _).skip fun m => (requireAccess _ _ _ _).skip fun _ => ?_
    exact runMethod m site ho hargs

theorem callClassMember
    {c : ClassDef} (name : String) (typeArgs : List TypeExpr) (env : Env) (site : Span)
    (hc : Knows S c) (hargs : Knows S args) :
    Keeps S (Eval.callClassMember E c name args typeArgs env site) := by
  unfold Eval.callClassMember
  split
  · refine look.andThen fun h => ?_
    have hslot := (Knows.self S h).classStatic? c name
    split
    · next v heq =>
        rw [heq] at hslot
        exact Careful.call typeArgs site hslot (hargs.more _)
    · exact (callMethod name (knows_vclass.mpr hc) hargs).more _
  · refine (selectMethod _ _).skip fun m => (requireAccess _ _ _ _).skip fun _ => ?_
    exact runStatic m site hargs

theorem callMember
    (name : String) (typeArgs : List TypeExpr) (env : Env) (site : Span) (hv : Knows S v)
    (hargs : Knows S args) :
    Keeps S (Eval.callMember E v name args typeArgs env site) := by
  unfold Eval.callMember
  split
  · exact callInstanceMember name typeArgs env site hv hargs
  · exact callClassMember name typeArgs env site hv hargs
  · next i =>
    refine look.andThen fun h => ?_
    have hslot := (Knows.self S h).interfaceStatic? i name
    split
    · next f heq =>
        rw [heq] at hslot
        exact Careful.call typeArgs site hslot (hargs.more _)
    · exact fault _
  · next m =>
      have hmember := Builtin.knows_member? (w := S) m name
      split
      · next f heq =>
          rw [heq] at hmember
          exact Careful.call typeArgs site hmember hargs
      · exact fault _
  · next id =>
      refine look.andThen fun h => ?_
      have hentry := KeyedMap.knows_get? ((Knows.self S h).map id) (.str name)
      split
      · next f heq =>
          rw [heq] at hentry
          refine ite (fun _ => Careful.call typeArgs site hentry (hargs.more _)) fun _ => ?_
          exact (callMethod name knows_vmap hargs).more _
      · exact (callMethod name knows_vmap hargs).more _
  · exact callMethod name hv hargs

/-! ### The class above -/

/-- What is done with the class above knows the instance. -/
theorem above
    {f : Instance × ClassDef → Eval Value} (env : Env)
    (hf : ∀ o p, Keeps (S ∪ carried o) (f (o, p))) :
    Keeps S (Eval.superTarget env >>= f) := by
  unfold Eval.superTarget
  rw [bind_assoc]
  have hfault {T : World} (cause : Cause) : Keeps T (Eval.fault cause >>= f) :=
    bind (Q := fun _ => False) (fault cause) fun _ hfalse => hfalse.elim
  refine look.andThen fun h => ?_
  have hreceiver := Scopes.knows_receiverOf (Knows.self S h).scopes env
  split
  · exact hfault _
  · next r heq =>
      rw [heq] at hreceiver
      split
      · exact hfault _
      · rw [pure_bind]
        exact (hf r.this _).mono (Set.union_subset Set.subset_union_left hreceiver)

theorem constructAbove
    (env : Env) (site : Span) (hargs : Knows S args) :
    Keeps S (Eval.constructAbove E args env site) := by
  refine above env fun o p => ?_
  have ho := Knows.self S o
  refine (selectConstructor _ _ _).skip fun m => ?_
  split
  · exact (runMethod _ site ho (hargs.more _)).skip fun _ => pure knows_vnil trivial
  · exact pure knows_vnil trivial

theorem callAbove
    (name : String) (env : Env) (site : Span) (hargs : Knows S args) :
    Keeps S (Eval.callAbove E name args env site) := by
  refine above env fun o p => ?_
  have ho := Knows.self S o
  dsimp only
  split
  · exact callMethod name ho (hargs.more _)
  · exact (selectMethod _ _).skip fun m => runMethod m site ho (hargs.more _)

end Calls

theorem memberAbove
    (name : String) (env : Env) :
    Keeps S (Eval.memberAbove name env) := by
  refine above env fun o p => ?_
  have ho := Knows.self S o
  exact ite (fun _ => fault _) fun _ => bindMethod _ name ho

/-! ### Expressions -/

section Expressions

variable [Careful E]

theorem evalList
    (env : Env) (es : List Expr) :
    Keeps S (Eval.evalList E env es) := by
  exact each fun e _ => Careful.eval S e env

theorem interpolate
    (env : Env) (written : String) (parts : List (StringPart Expr)) :
    Keeps S (Eval.interpolate E env written parts) := by
  fun_induction Eval.interpolate E env written parts generalizing S with
  | case1 written =>
      exact pure (knows_string _) trivial
  | case2 written s rest ih =>
      exact ih
  | case3 written e rest ih =>
      refine (Careful.eval S e env).andThen fun v => ?_
      exact (text (Knows.self S v)).skip fun s => ih s

theorem evalEntries
    {m : KeyedMap} (env : Env) (entries : List (Expr × Expr)) (hm : Knows S m) :
    Keeps S (Eval.evalEntries E env m entries) := by
  induction entries generalizing S m with
  | nil =>
      exact pure hm trivial
  | cons e rest ih =>
      refine (Careful.eval S e.1 env).andThen fun key => ?_
      refine (Careful.eval _ e.2 env).andThen fun v => look.skip fun h => ih ?_
      exact KeyedMap.knows_insert (by simp [hm]) (by simp) (by simp)

theorem makeLambda
    (ps : List Param) (returns : Option TypeExpr) (body : LambdaBody Expr Stmt) (env : Env) :
    Keeps S (Eval.makeLambda ps returns body env) := by
  exact quietly fun w h _ _ => ⟨.newNumber w h, knows_vfunction, trivial⟩

theorem valueOfCall
    (callee : Expr) (typeArgs : List TypeExpr) (args : List Expr) (site : Span) (env : Env) :
    Keeps S (Eval.valueOfCall E callee typeArgs args site env) := by
  unfold Eval.valueOfCall
  split
  · exact (evalList env args).andThen fun vs => constructAbove env site (Knows.self S vs)
  · exact (evalList env args).andThen fun vs => callAbove _ env site (Knows.self S vs)
  · refine (Careful.eval S _ env).andThen fun v => (evalList env args).andThen fun vs => ?_
    exact callMember _ typeArgs env site (by simp) (by simp)
  · refine (Careful.eval S _ env).andThen fun f => (evalList env args).andThen fun vs => ?_
    exact Careful.call typeArgs site (by simp) (by simp)

/-- A condition decides which of two expressions is evaluated. -/
theorem test
    {β : Type} [Carrier β] {Q : β → Prop} {x y : Eval β} (e : Expr) (env : Env)
    (hx : Keeps S x Q) (hy : Keeps S y Q) :
    Keeps S (do if (← E.eval e env).isTruthy then x else y) Q := by
  exact (Careful.eval S e env).skip fun v => ite (fun _ => hx) fun _ => hy

theorem receiverOf
    (env : Env) :
    Keeps S (do
      match (← Eval.heap).scopes.receiver env with
      | some r => Pure.pure (Value.object r.this)
      | none => Eval.fault (.other "'this' used outside of a method")) := by
  refine look.andThen fun h => ?_
  have hreceiver := Scopes.knows_receiverOf (Knows.self S h).scopes env
  split
  · next r heq =>
      rw [heq] at hreceiver
      exact pure hreceiver trivial
  · exact fault _

theorem openChannel
    (element : Option TypeExpr) (capacity : Option Expr) (env : Env) :
    Keeps S (do
      let limit ← match capacity with
        | some e => do
          let v ← E.eval e env
          Pure.pure (some (← Eval.ofExcept (Eval.channelCapacity (← Eval.heap) v)))
        | none => Pure.pure none
      Eval.change fun h => h.newChannel (element.map TypeExpr.canonical) limit) := by
  dsimp only
  split
  · refine (Careful.eval S _ env).skip fun v => look.skip fun h => ?_
    refine (answer (Plain.knows _ _)).skip fun n => ?_
    exact (pure (Plain.knows _ _) trivial).skip fun limit => newChannel _ limit
  · exact (pure (Plain.knows _ _) trivial).skip fun limit => newChannel _ limit

/-- One case for each form of expression. -/
theorem evalExpr
    (e : Expr) (env : Env) :
    Keeps S (Eval.evalExpr E e env) := by
  have hbool (e : Expr) (f : Value → Bool) : Keeps S (do Pure.pure (Value.bool (f (← E.eval e env)))) :=
    (Careful.eval S e env).skip fun v => pure knows_vbool trivial
  unfold Eval.evalExpr
  split
  · exact pure knows_vint trivial
  · exact pure knows_vfloat trivial
  · exact pure knows_vstr trivial
  · exact pure knows_vbool trivial
  · exact pure knows_vnil trivial
  · exact (interpolate env _ _).skip fun s => pure knows_vstr trivial
  · exact look.andThen fun h => answer (Eval.knows_lookupName (Knows.self S h) env _)
  · exact receiverOf env
  · exact fault _
  · exact (evalList env _).andThen fun vs => makeArray (Knows.self S vs)
  · refine (evalEntries env _ KeyedMap.knows_empty).andThen fun m => ?_
    exact quietly fun w h hS _ => ⟨.newMap h ((Knows.self S m).mono hS), knows_vmap, trivial⟩
  · exact hbool _ fun v => !v.isTruthy
  · exact (Careful.eval S _ env).skip fun v => negate v
  · refine (Careful.eval S _ env).andThen fun left => (Careful.eval _ _ env).andThen fun right => ?_
    exact binaryOp _ (by simp) (by simp)
  · exact test _ env (hbool _ Value.isTruthy) (pure knows_vbool trivial)
  · exact test _ env (pure knows_vbool trivial) (hbool _ Value.isTruthy)
  · exact test _ env (Careful.eval S _ env) (Careful.eval S _ env)
  · exact valueOfCall _ _ _ _ env
  · exact memberAbove _ env
  · exact (Careful.eval S _ env).andThen fun v => readMember _ env (Knows.self S v)
  · exact (Careful.eval S _ env).skip fun v => (Careful.eval S _ env).skip fun k => readElement v k
  · exact makeLambda _ _ _ env
  · exact startThread _ env
  · refine (Careful.eval S _ env).skip fun v => ?_
    split
    · exact awaitThread _
    · exact look.skip fun h => fault _
  · exact openChannel _ _ env
  · exact (Careful.eval S _ env).skip fun v => look.skip fun h => pure knows_vbool trivial
  · refine (Careful.eval S _ env).skip fun a => (Careful.eval S _ env).skip fun b => ?_
    refine query (fun w h _ _ => Eval.knows_rangeOf a b) fun items => ?_
    exact newArray (Knows.self S items)

end Expressions

end Keeps
end ScriptEngine
