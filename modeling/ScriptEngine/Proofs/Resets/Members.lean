import ScriptEngine.Proofs.Resets.Collections
import ScriptEngine.Proofs.Resets.Concurrency

/-!
# Builtins, members and expressions that overlook what is old

Whatever is reached from a recent value, by a name or by a key, is recent, and so is all that is
found in the class of a recent instance.
-/

namespace ScriptEngine
namespace Oblivious

variable {t : Epoch} {E : Engine} {args : List Value} {v : Value} {env : Env} {o : Instance}
variable {c : ClassDef}

/-! ### Builtin methods -/

theorem callString
    (s name : String) (hargs : Recent t args) :
    Oblivious t (Builtin.callString s name args) (Recent t) := by
  refine look (fun h hh => ?_) fun h _ => ?_
  · simp only [Builtin.stringPieces_forget hh hargs, Builtin.stringMethod_forget hh hargs]
  · refine (ofExcept (P := fun _ => True) fun _ _ => trivial).bind fun pieces _ => ?_
    cases pieces with
    | none =>
        exact ofExcept fun v hv => (Builtin.recent_stringMethod s name).of_ok hv
    | some parts =>
        exact makeArray (.map_list fun _ _ => recent_vstr)

theorem callClass
    {c : ClassDef} (name : String) (hc : Recent t c) (hargs : Recent t args) :
    Oblivious t (Builtin.callClass c name args) (Recent t) := by
  refine look (fun h hh => ?_) fun h hh => ?_
  · rw [Heap.staticsOf_forget hc.classId, Builtin.constantNamed_forget hh hargs hc,
      Heap.display_forget hh (recent_vclass.mpr hc)]
  · split
    · exact makeArray (hh.staticsOf hc.classId).2
    · exact ofExcept fun v hv => (Builtin.recent_constantNamed hh hc).of_ok hv
    · exact pure recent_vstr
    · exact pure recent_vstr
    · exact fault _

theorem callMethod
    [Unmindful t E] (receiver : Value) (name : String) (hreceiver : Recent t receiver)
    (hargs : Recent t args) :
    Oblivious t (Builtin.callMethod E receiver name args) (Recent t) := by
  unfold Builtin.callMethod
  split
  · exact callString _ name hargs
  · exact answer (fun h hh => Builtin.intMethod_forget hh hargs _ name) fun h _ =>
      Builtin.recent_intMethod _ name
  · exact answer (fun h hh => Builtin.floatMethod_forget hh hargs _ name) fun h _ =>
      Builtin.recent_floatMethod _ name
  · exact callArray hreceiver name hargs
  · exact callMap hreceiver name hargs
  · exact callCollection hreceiver name hargs
  · exact callChannel hreceiver _ name hargs
  · exact callFuture hreceiver _ name hargs
  · exact answer (fun h hh => Builtin.callInstance_forget hh hargs hreceiver name) fun h _ =>
      Builtin.recent_callInstance hreceiver name
  · exact callClass name hreceiver hargs
  · exact callThread hreceiver name
  · exact answer (fun h hh => Builtin.callScalar_forget hh hargs hreceiver name) fun h _ =>
      Builtin.recent_callScalar _ name
  · exact answer (fun h hh => Builtin.callScalar_forget hh hargs hreceiver name) fun h _ =>
      Builtin.recent_callScalar _ name
  · exact faultAt fun h hh => Builtin.unknownMethod_forget hh hreceiver name

/-! ### Builtin functions -/

theorem printText
    (s : String) :
    Oblivious t (Builtin.printText s) fun _ => True := by
  exact modify (.print s)

theorem writeArgs
    [Unmindful t E] (hargs : Recent t args) :
    Oblivious t (Builtin.writeArgs E args) fun _ => True := by
  exact (texts hargs).bind fun _ _ => pure trivial

theorem awaitTime
    (time : Nat) :
    Oblivious t
      (Eval.await (.time time) fun h => if time ≤ h.clock then some (Value.nil, h) else none)
      (Recent t) := by
  refine await recent_waitTime fun h hh => ?_
  rw [Heap.clock_forget]
  split
  · refine ⟨rfl, ?_⟩
    rintro _ ⟨⟩
    exact ⟨recent_vnil, hh⟩
  · exact ⟨rfl, nofun⟩

theorem sleep
    (hargs : Recent t args) :
    Oblivious t (Builtin.sleep args) (Recent t) := by
  refine counted (look (fun h hh => ?_) fun h _ => ?_)
  · rw [Builtin.intAt_forget hh hargs, Heap.clock_forget]
  · refine (ofExcept (P := fun _ => True) fun _ _ => trivial).bind fun n _ => ?_
    dsimp only
    split
    · exact yield.bind fun _ _ => awaitTime _
    · exact awaitTime _

theorem randomNumber : Oblivious t (Builtin.randomNumber args) (Recent t) := by
  exact counted ((change .newNumber).bind fun n _ => pure recent_vfloat)

theorem callNative
    [Unmindful t E] {f : Native} (typeArgs : List TypeExpr) (hf : Recent t f)
    (hargs : Recent t args) :
    Oblivious t (Builtin.callNative E f args typeArgs) (Recent t) := by
  have hfirst := recent_argument hargs 0
  unfold Builtin.callNative
  split
  · exact (writeArgs hargs).bind fun s _ => (printText s).bind fun _ _ => pure recent_vnil
  · exact (writeArgs hargs).bind fun s _ => (printText _).bind fun _ _ => pure recent_vnil
  · exact counted ((Unmindful.text hfirst).bind fun s _ => pure recent_vstr)
  · refine ask (fun h hh => Builtin.rangeItems_forget hh hargs) (fun h _ => ?_) fun items hitems =>
      change (.newArray hitems)
    exact Builtin.recent_rangeItems
  · exact makeCollection _ typeArgs hargs
  · exact makeChannel typeArgs hargs
  · exact startAsync hargs
  · exact makePromise hargs
  · exact makeCompletable
  · exact (settleFuture hf (recent_fulfilled.mpr hfirst)).bind fun _ _ => pure recent_vbool
  · exact (settleFuture hf (recent_rejected.mpr hfirst)).bind fun _ _ => pure recent_vbool
  · exact sleep hargs
  · exact randomNumber
  · exact randomNumber
  · refine look (fun h hh => ?_) fun h _ => ?_
    · rw [Builtin.pureNative_forget hh hargs]
    · split
      · next r heq => exact ofExcept fun v hv => (Builtin.recent_pureNative heq).of_ok hv
      · exact pure recent_vnil

/-! ### Operators -/

theorem binaryOp
    [Unmindful t E] {a b : Value} (op : BinaryOp) (ha : Recent t a) (hb : Recent t b) :
    Oblivious t (Eval.binaryOp E op a b) (Recent t) := by
  have htexts : Oblivious t (do
      let left ← E.text a
      let right ← E.text b
      Pure.pure (Value.str (left ++ right))) (Recent t) := by
    exact (Unmindful.text ha).bind fun _ _ => (Unmindful.text hb).bind fun _ _ => pure recent_vstr
  unfold Eval.binaryOp
  split
  · exact pure recent_vint
  · exact htexts
  · exact htexts
  · next i j =>
      have hi : t.arrays ≤ i := ha
      have hj : t.arrays ≤ j := hb
      refine change fun h hh => ?_
      rw [Heap.array_forget hi, Heap.array_forget hj]
      exact Yields.newArray (recent_array_append.mpr ⟨hh.array ha, hh.array hb⟩) h hh
  · exact answer (fun h hh => Eval.operate_forget hh ha hb _) fun h _ => Eval.recent_operate _ _ _

theorem negate
    (hv : Recent t v) :
    Oblivious t (Eval.negate v) (Recent t) := by
  unfold Eval.negate
  split
  · exact pure recent_vint
  · exact pure recent_vfloat
  · refine faultAt fun h hh => ?_
    rw [Heap.typeName_forget hh hv]

/-! ### Reading -/

theorem bindBuiltin
    {receiver : Value} (name : String) (hreceiver : Recent t receiver) :
    Oblivious t (Eval.bindBuiltin receiver name) (Recent t) := by
  exact change (Yields.newNumber.map (fun n => Value.builtinMethod n receiver name)
    fun _ _ => hreceiver)

theorem bindMethod
    (name : String) (ho : Recent t o) (hc : Recent t c) :
    Oblivious t (Eval.bindMethod o c name) (Recent t) := by
  exact change (Yields.newNumber.map (fun n => Value.instanceMethod n o c name)
    fun _ _ => ⟨ho, hc⟩)

theorem bindStatic
    (name : String) (hc : Recent t c) :
    Oblivious t (Eval.bindStatic c name) (Recent t) := by
  exact change (Yields.newNumber.map (fun n => Value.staticMethod n c name) fun _ _ => hc)

theorem checkField
    (o : Instance) (name : String) (henv : Recent t env) :
    Oblivious t (Eval.checkField o name env) fun _ => True := by
  unfold Eval.checkField
  split
  · exact requireAccess _ _ _ henv
  · exact pure trivial

theorem getInstanceMember
    (name : String) (ho : Recent t o) (henv : Recent t env) :
    Oblivious t (Eval.getInstanceMember o name env) (Recent t) := by
  refine look (fun h hh => ?_) fun h hh => ?_
  · rw [Heap.field?_forget ho]
  have hobject : Recent t (Value.object o) := ho
  split
  · next v heq =>
      exact (checkField o name henv).bind fun _ _ => pure (hh.field? ho name v heq)
  · split
    · exact (requireAccess _ _ _ henv).bind fun _ _ => bindMethod name ho ho.2
    · exact ite (fun _ => bindBuiltin name hobject) fun _ => fault _

theorem getClassMember
    (name : String) (hc : Recent t c) :
    Oblivious t (Eval.getClassMember c name) (Recent t) := by
  refine look (fun h hh => ?_) fun h hh => ?_
  · rw [Heap.classStatic?_forget hc]
  split
  · next v heq =>
      exact pure (hh.classStatic? hc name v heq)
  · refine ite (fun _ => bindStatic name hc) fun _ => ?_
    exact ite (fun _ => bindBuiltin name (recent_vclass.mpr hc)) fun _ => fault _

theorem getBuiltinMember
    (name : String) (hv : Recent t v) :
    Oblivious t (Eval.getBuiltinMember v name) (Recent t) := by
  refine look (fun h hh => ?_) fun h hh => ?_
  · rw [Builtin.length?_forget hv]
  split
  · exact pure (recent_count _)
  · exact ite (fun _ => bindBuiltin name hv) fun _ => fault _

theorem readMember
    (name : String) (hv : Recent t v) (henv : Recent t env) :
    Oblivious t (Eval.readMember v name env) (Recent t) := by
  unfold Eval.readMember
  split
  · exact getInstanceMember name hv henv
  · exact getClassMember name hv
  · next i =>
      refine look (fun h hh => ?_) fun h hh => ?_
      · rw [Heap.interfaceStatic?_forget hv]
      split
      · next v heq =>
          exact pure (hh.interfaceStatic? hv name v heq)
      · exact fault _
  · next m =>
      split
      · next v heq =>
          exact pure (Builtin.recent_member? m name v heq)
      · exact fault _
  · next id =>
      refine look (fun h hh => ?_) fun h hh => ?_
      · rw [Heap.map_forget hv]
      split
      · next v heq =>
          exact pure (KeyedMap.recent_get? (hh.map hv) _ v heq)
      · exact ite (fun _ => bindBuiltin name hv) fun _ => pure recent_vnil
  · exact getBuiltinMember name hv

theorem readElement
    {key : Value} (hv : Recent t v) (hkey : Recent t key) :
    Oblivious t (Eval.readElement v key) (Recent t) := by
  exact answer (fun h hh => Eval.elementOf_forget hh hv hkey) fun h hh =>
    Eval.recent_elementOf hh hv key

/-! ### Assignments -/

theorem fieldFault?_forget
    {h : Heap} (f : FieldDef) (name : String) (ho : Recent t o) :
    Eval.fieldFault? (h.forget t) o f name = Eval.fieldFault? h o f name := by
  unfold Eval.fieldFault?
  rw [Heap.object_forget ho.1]

theorem setField
    (name : String) (ho : Recent t o) (hv : Recent t v) :
    Oblivious t (Eval.modify (·.setField o name v)) fun _ => True := by
  exact modify (.setField ho name hv)

theorem assignField
    (name : String) (ho : Recent t o) (hv : Recent t v) (henv : Recent t env) :
    Oblivious t (Eval.assignField o name v env) fun _ => True := by
  unfold Eval.assignField
  refine guarded _ ?_
  dsimp only
  split
  · refine (requireAccess _ _ _ henv).bind fun _ _ => look (fun h hh => ?_) fun h hh => ?_
    · rw [fieldFault?_forget _ _ ho]
    · refine (unlessFault _).bind fun _ _ => (checkOption hv _ _ _).bind fun _ _ => ?_
      exact setField name ho hv
  · exact setField name ho hv

theorem assignStatic
    (name : String) (hc : Recent t c) (hv : Recent t v) :
    Oblivious t (Eval.assignStatic c name v) fun _ => True := by
  refine look (fun h hh => ?_) fun h hh => ?_
  · rw [Heap.staticHome?_forget hc]
  split
  · exact fault _
  · next owner slot heq =>
      obtain ⟨howner, -⟩ := hh.staticHome? hc heq
      refine guarded _ ((checkOption hv _ _ _).bind fun _ _ => modify ?_)
      exact .setStatic howner.classId name hv

theorem writeMember
    {target : Value} (name : String) (htarget : Recent t target) (hv : Recent t v)
    (henv : Recent t env) :
    Oblivious t (Eval.writeMember target name v env) fun _ => True := by
  unfold Eval.writeMember
  split
  · exact assignField name htarget hv henv
  · exact assignStatic name htarget hv
  · exact fault _
  · exact modify (.insertInMap htarget recent_vstr hv)
  · refine faultAt fun h hh => ?_
    rw [Heap.typeName_forget hh htarget]

theorem assignElement
    {d : Collection} {key : Value} (hd : Recent t d) (hkey : Recent t key) (hv : Recent t v) :
    Oblivious t (Eval.assignElement d key v) fun _ => True := by
  refine (checkElement d (recent_some.mpr hkey) hv).bind fun _ _ => ?_
  dsimp only
  split
  · refine look (fun h hh => ?_) fun h _ => ?_
    · rw [Heap.key_forget hh hkey]
    · exact changeEntries hd fun m hm => KeyedMap.recent_insert hm hkey hv
  · refine (itemPlace hd hkey).bind fun i _ => ?_
    exact changeItems hd fun xs hxs => hxs.setIfInBounds hv i

theorem writeElement
    {target key : Value} (htarget : Recent t target) (hkey : Recent t key) (hv : Recent t v) :
    Oblivious t (Eval.writeElement target key v) fun _ => True := by
  unfold Eval.writeElement
  split
  · next id =>
      have hid : t.arrays ≤ id := htarget
      refine look (fun h hh => ?_) fun h _ => ?_
      · rw [Heap.array_forget hid, Eval.indexOf_forget hh hkey]
      · refine (ofExcept (P := fun _ => True) fun _ _ => trivial).bind fun i _ => ?_
        exact modifyArray hid fun xs hxs => hxs.setIfInBounds hv i
  · exact insertInMap htarget (fun h hh => Heap.key_forget hh hkey) hkey hv
  · refine ite (fun _ => ?_) fun _ => assignElement htarget hkey hv
    refine faultAt fun h hh => ?_
    rw [Heap.typeName_forget hh htarget]
  · refine faultAt fun h hh => ?_
    rw [Heap.typeName_forget hh htarget]

/-! ### Calls -/

section Calls

variable [Unmindful t E]

theorem applyValue
    {callee : Value} (typeArgs : List TypeExpr) (site : Span) (hcallee : Recent t callee)
    (hargs : Recent t args) :
    Oblivious t (Eval.applyValue E callee args typeArgs site) (Recent t) := by
  unfold Eval.applyValue
  split
  · exact callFunction hcallee hargs typeArgs site
  · exact callNative _ hcallee hargs
  · next lookup name =>
      obtain ⟨ho, hlookup⟩ := recent_instanceMethod.mp hcallee
      refine (selectMethod (hlookup.usableMethods name) _).bind fun m hm => ?_
      exact runMethod site ho hm hargs
  · next name =>
      refine (selectMethod ((recent_staticMethod.mp hcallee).staticMethodsNamed name) _).bind
        fun m hm => runStatic site hm hargs
  · exact callMethod _ _ (recent_builtinMethod.mp hcallee) hargs
  · exact newInstance hcallee typeArgs hargs site
  · refine faultAt fun h hh => ?_
    rw [Heap.typeName_forget hh hcallee]

/-- A member that is looked up is called. -/
theorem callFound
    {o : Option Value} {x : Eval Value} (typeArgs : List TypeExpr) (site : Span)
    (ho : Recent t o) (hargs : Recent t args) (hx : Oblivious t x (Recent t)) :
    Oblivious t
      (match o with
        | some f => E.call f args typeArgs site
        | none => x)
      (Recent t) := by
  cases o with
  | none =>
      exact hx
  | some f =>
      exact Unmindful.call typeArgs site (recent_some.mp ho) hargs

theorem callInstanceMember
    (name : String) (typeArgs : List TypeExpr) (site : Span) (ho : Recent t o)
    (hargs : Recent t args) (henv : Recent t env) :
    Oblivious t (Eval.callInstanceMember E o name args typeArgs env site) (Recent t) := by
  have hmethods := ho.2.usableMethods name
  unfold Eval.callInstanceMember
  split
  · refine look (fun h hh => ?_) fun h hh => ?_
    · rw [Heap.field?_forget ho]
    · split
      · next v heq =>
          refine (checkField o name henv).bind fun _ _ => ?_
          exact Unmindful.call typeArgs site (hh.field? ho name v heq) hargs
      · exact callMethod (.object o) name ho hargs
  · refine (selectMethod hmethods _).bind fun m hm => ?_
    exact (requireAccess _ _ _ henv).bind fun _ _ => runMethod site ho hm hargs

theorem callClassMember
    (name : String) (typeArgs : List TypeExpr) (site : Span) (hc : Recent t c)
    (hargs : Recent t args) (henv : Recent t env) :
    Oblivious t (Eval.callClassMember E c name args typeArgs env site) (Recent t) := by
  have hmethods := hc.staticMethodsNamed name
  unfold Eval.callClassMember
  split
  · refine look (fun h hh => ?_) fun h hh => ?_
    · rw [Heap.classStatic?_forget hc]
    · refine callFound typeArgs site (hh.classStatic? hc name) hargs ?_
      exact callMethod (.classDef c) name hc hargs
  · refine (selectMethod hmethods _).bind fun m hm => ?_
    exact (requireAccess _ _ _ henv).bind fun _ _ => runStatic site hm hargs

theorem callMember
    (name : String) (typeArgs : List TypeExpr) (site : Span) (hv : Recent t v)
    (hargs : Recent t args) (henv : Recent t env) :
    Oblivious t (Eval.callMember E v name args typeArgs env site) (Recent t) := by
  unfold Eval.callMember
  split
  · exact callInstanceMember name typeArgs site hv hargs henv
  · exact callClassMember name typeArgs site hv hargs henv
  · next i =>
      refine look (fun h hh => ?_) fun h hh => ?_
      · rw [Heap.interfaceStatic?_forget hv]
      · exact callFound typeArgs site (hh.interfaceStatic? hv name) hargs (fault _)
  · next m =>
      exact callFound typeArgs site (Builtin.recent_member? m name) hargs (fault _)
  · next id =>
      refine look (fun h hh => ?_) fun h hh => ?_
      · rw [Heap.map_forget hv]
      · split
        · next f heq =>
            refine ite (fun _ => ?_) fun _ => callMethod _ name hv hargs
            exact Unmindful.call typeArgs site (KeyedMap.recent_get? (hh.map hv) _ f heq) hargs
        · exact callMethod _ name hv hargs
  · exact callMethod _ name hv hargs

/-! ### Members of the class above -/

omit [Unmindful t E] in
theorem superTarget
    (henv : Recent t env) :
    Oblivious t (Eval.superTarget env) (Recent t) := by
  refine look (fun h hh => ?_) fun h hh => ?_
  · rw [Heap.scopes_forget, Scopes.receiver_forget henv]
  split
  · exact fault _
  · next r heq =>
      have hr := Scopes.Renewed.receiver hh.scopes henv r heq
      split
      · exact fault _
      · next p hp =>
          exact pure ⟨hr.1, hr.2.parent? p hp⟩

theorem constructAbove
    (site : Span) (hargs : Recent t args) (henv : Recent t env) :
    Oblivious t (Eval.constructAbove E args env site) (Recent t) := by
  refine (superTarget henv).bind fun above habove => ?_
  refine (selectConstructor _ habove.2.effectiveConstructors _).bind fun m hm => ?_
  cases m with
  | none =>
      exact pure recent_vnil
  | some m =>
      exact (runMethod site habove.1 (recent_some.mp hm) hargs).bind fun _ _ => pure recent_vnil

theorem callAbove
    (name : String) (site : Span) (hargs : Recent t args) (henv : Recent t env) :
    Oblivious t (Eval.callAbove E name args env site) (Recent t) := by
  refine (superTarget henv).bind fun above habove => ?_
  have hmethods := habove.2.usableMethods name
  dsimp only
  split
  · exact callMethod (.object above.1) name habove.1 hargs
  · exact (selectMethod hmethods _).bind fun m hm => runMethod site habove.1 hm hargs

omit [Unmindful t E] in
theorem memberAbove
    (name : String) (henv : Recent t env) :
    Oblivious t (Eval.memberAbove name env) (Recent t) := by
  refine (superTarget henv).bind fun above habove => ?_
  exact ite (fun _ => fault _) fun _ => bindMethod name habove.1 habove.2

end Calls

/-! ### Expressions -/

section Expressions

variable [Unmindful t E]

theorem evalList
    (henv : Recent t env) (es : List Expr) :
    Oblivious t (Eval.evalList E env es) (Recent t) := by
  exact mapM fun e _ => Unmindful.eval henv e

theorem interpolate
    (henv : Recent t env) (written : String) (parts : List (StringPart Expr)) :
    Oblivious t (Eval.interpolate E env written parts) fun _ => True := by
  fun_induction Eval.interpolate E env written parts with
  | case1 written =>
      exact pure trivial
  | case2 written s rest ih =>
      exact ih
  | case3 written e rest ih =>
      exact (Unmindful.eval henv e).bind fun v hv => (Unmindful.text hv).bind fun s _ => ih s

theorem evalEntries
    {m : KeyedMap} (henv : Recent t env) (entries : List (Expr × Expr)) (hm : Recent t m) :
    Oblivious t (Eval.evalEntries E env m entries) (Recent t) := by
  induction entries generalizing m with
  | nil =>
      exact pure hm
  | cons e rest ih =>
      refine (Unmindful.eval henv e.1).bind fun key hkey => ?_
      refine (Unmindful.eval henv e.2).bind fun v hv => look (fun h hh => ?_) fun h _ => ?_
      · rw [Heap.key_forget hh hkey]
      · exact ih (KeyedMap.recent_insert hm hkey hv)

omit [Unmindful t E] in
theorem makeLambda
    (ps : List Param) (returns : Option TypeExpr) (body : LambdaBody Expr Stmt)
    (henv : Recent t env) :
    Oblivious t (Eval.makeLambda ps returns body env) (Recent t) := by
  exact change (Yields.newNumber.map (fun n => Value.function n _) fun _ _ => henv)

theorem valueOfCall
    (callee : Expr) (typeArgs : List TypeExpr) (args : List Expr) (site : Span)
    (henv : Recent t env) :
    Oblivious t (Eval.valueOfCall E callee typeArgs args site env) (Recent t) := by
  unfold Eval.valueOfCall
  split
  · exact (evalList henv args).bind fun vs hvs => constructAbove site hvs henv
  · exact (evalList henv args).bind fun vs hvs => callAbove _ site hvs henv
  · refine (Unmindful.eval henv _).bind fun v hv => (evalList henv args).bind fun vs hvs => ?_
    exact callMember _ typeArgs site hv hvs henv
  · refine (Unmindful.eval henv _).bind fun f hf => (evalList henv args).bind fun vs hvs => ?_
    exact Unmindful.call typeArgs site hf hvs

/-- A condition decides which of two expressions is evaluated. -/
theorem test
    {β : Type} {Q : β → Prop} {x y : Eval β} (henv : Recent t env) (e : Expr)
    (hx : Oblivious t x Q) (hy : Oblivious t y Q) :
    Oblivious t (do if (← E.eval e env).isTruthy then x else y) Q := by
  exact (Unmindful.eval henv e).bind fun v _ => ite (fun _ => hx) fun _ => hy

omit [Unmindful t E] in
theorem receiverOf
    (henv : Recent t env) :
    Oblivious t (do
      match (← Eval.heap).scopes.receiver env with
      | some r => Pure.pure (Value.object r.this)
      | none => Eval.fault (.other "'this' used outside of a method")) (Recent t) := by
  refine look (fun h hh => ?_) fun h hh => ?_
  · rw [Heap.scopes_forget, Scopes.receiver_forget henv]
  split
  · next r heq =>
      exact pure (Scopes.Renewed.receiver hh.scopes henv r heq).1
  · exact fault _

theorem openChannel
    (element : Option TypeExpr) (capacity : Option Expr) (henv : Recent t env) :
    Oblivious t (do
      let limit ← match capacity with
        | some e => do
          let v ← E.eval e env
          Pure.pure (some (← Eval.ofExcept (Eval.channelCapacity (← Eval.heap) v)))
        | none => Pure.pure none
      Eval.change fun h => h.newChannel (element.map TypeExpr.canonical) limit) (Recent t) := by
  dsimp only
  split
  · refine (Unmindful.eval henv _).bind fun v hv => look (fun h hh => ?_) fun h _ => ?_
    · rw [Eval.channelCapacity_forget hh hv]
    · refine (ofExcept (P := fun _ => True) fun _ _ => trivial).bind fun n _ => ?_
      exact (pure (P := fun _ => True) trivial).bind fun limit _ => change (.newChannel _ limit)
  · exact (pure (P := fun _ => True) trivial).bind fun limit _ => change (.newChannel _ limit)

theorem joinThread
    (henv : Recent t env) (handle : Expr) :
    Oblivious t (do
      match ← E.eval handle env with
      | .thread id => Builtin.awaitThread id
      | v => Eval.fault (.mismatch "Thread" ((← Eval.heap).typeName v))) (Recent t) := by
  refine (Unmindful.eval henv _).bind fun v hv => ?_
  split
  · exact awaitThread hv
  · refine faultAt fun h hh => ?_
    rw [Heap.typeName_forget hh hv]

/-- One case for each form of expression. -/
theorem evalExpr
    (e : Expr) (henv : Recent t env) :
    Oblivious t (Eval.evalExpr E e env) (Recent t) := by
  have hbool (e : Expr) (f : Value → Bool) :
      Oblivious t (do Pure.pure (Value.bool (f (← E.eval e env)))) (Recent t) :=
    (Unmindful.eval henv e).bind fun v _ => pure recent_vbool
  unfold Eval.evalExpr
  split
  · exact pure recent_vint
  · exact pure recent_vfloat
  · exact pure recent_vstr
  · exact pure recent_vbool
  · exact pure recent_vnil
  · exact (interpolate henv _ _).bind fun s _ => pure recent_vstr
  · exact answer (fun h hh => Eval.lookupName_forget henv _) fun h hh =>
      Eval.recent_lookupName hh henv _
  · exact receiverOf henv
  · exact fault _
  · exact (evalList henv _).bind fun vs hvs => makeArray hvs
  · refine (evalEntries henv _ KeyedMap.recent_empty).bind fun m hm => ?_
    exact change (.newMap hm)
  · exact hbool _ fun v => !v.isTruthy
  · exact (Unmindful.eval henv _).bind fun v hv => negate hv
  · refine (Unmindful.eval henv _).bind fun left hleft => ?_
    exact (Unmindful.eval henv _).bind fun right hright => binaryOp _ hleft hright
  · exact test henv _ (hbool _ Value.isTruthy) (pure recent_vbool)
  · exact test henv _ (pure recent_vbool) (hbool _ Value.isTruthy)
  · exact test henv _ (Unmindful.eval henv _) (Unmindful.eval henv _)
  · exact valueOfCall _ _ _ _ henv
  · exact memberAbove _ henv
  · exact (Unmindful.eval henv _).bind fun v hv => readMember _ hv henv
  · refine (Unmindful.eval henv _).bind fun v hv => ?_
    exact (Unmindful.eval henv _).bind fun k hk => readElement hv hk
  · exact makeLambda _ _ _ henv
  · exact startThread henv _
  · exact joinThread henv _
  · exact openChannel _ _ henv
  · refine (Unmindful.eval henv _).bind fun v hv => look (fun h hh => ?_) fun h _ =>
      pure recent_vbool
    rw [Heap.instanceOf_forget hh hv]
  · refine (Unmindful.eval henv _).bind fun a ha => (Unmindful.eval henv _).bind fun b hb => ?_
    refine ask (fun h hh => Eval.rangeOf_forget hh ha hb) (fun h _ => ?_) fun items hitems =>
      change (.newArray hitems)
    exact Eval.recent_rangeOf a b

end Expressions

end Oblivious
end ScriptEngine
