import ScriptEngine.Proofs.Evaluation.Composed

/-!
# What calls are composed of

The calm changes of a heap, and the calls of declared code.  Every body that a program declares is
run by `runFrame`: it opens the scope of the call and leaves the frame when the body has stopped.
-/

namespace ScriptEngine

attribute [grind =] Heap.newArray Heap.newMap Heap.newObject Heap.newRecord Heap.newCollection
  Heap.newChannel Heap.newNumber Heap.newStatics Heap.modifyArray Heap.markBuilt
  Heap.endConstruction Heap.modifyCollection Heap.addConstant Heap.endDeclaration Heap.modifyMap
  Heap.insertInMap

namespace Scopes

@[simp] theorem size_update
    (s : Scopes) (id : ScopeId) (f : Scope → Scope) :
    (s.update id f).items.size = s.items.size := by
  simp [update]

/-- What a scope is after one of the scopes was changed. -/
theorem scope_update
    (s : Scopes) (id : ScopeId) (f : Scope → Scope) (j : ScopeId) :
    (s.update id f).scope j =
      if id = j ∧ j < s.items.size then f (s.scope j) else s.scope j := by
  simp only [scope, update, Array.getD_eq_getD_getElem?, Array.getElem?_modify]
  by_cases hid : id = j
  · by_cases hj : j < s.items.size
    · simp [hid, hj]
    · simp [hid, hj]
  · simp [hid]

/-- A change of scopes that spares the frames spares them all. -/
theorem frame_update
    (s : Scopes) (id : ScopeId) (f : Scope → Scope)
    (hf : ∀ sc, (f sc).frame = sc.frame) (j : ScopeId) :
    ((s.update id f).scope j).frame = (s.scope j).frame := by
  rw [scope_update]
  split
  · exact hf _
  · rfl

end Scopes

namespace Calm

variable {h h' : Heap}

/-- The frames stay as they are where a name is bound. -/
@[grind ←]
theorem define
    (h : Heap) (env : Env) (name : String) (b : Binding) :
    Calm h { h with scopes := h.scopes.define env name b } := by
  unfold Scopes.define
  split
  · exact refl h
  · exact of_scopes (by simp) (Scopes.frame_update _ _ _ fun _ => rfl)

/-- The frames stay as they are where a name is assigned to. -/
@[grind ←]
theorem assign
    (h : Heap) (env : Env) (name : String) (v : Value) :
    Calm h { h with scopes := h.scopes.assign env name v } := by
  unfold Scopes.assign
  split
  · exact refl h
  · exact of_scopes (by simp) (Scopes.frame_update _ _ _ fun _ => rfl)

/-- The frames stay as they are where a module is imported. -/
@[grind ←]
theorem importAs
    (h : Heap) (env : Env) (localName module : String) :
    Calm h { h with scopes := h.scopes.importAs env localName module } := by
  unfold Scopes.importAs
  split
  · exact refl h
  · exact of_scopes (by simp) (Scopes.frame_update _ _ _ fun _ => rfl)

/-- Instances have nothing to do with frames. -/
@[grind ←]
theorem modifyObject
    (h : Heap) (id : Nat) (f : ObjectState → ObjectState) :
    Calm h (h.modifyObject id f) := by
  exact of_eq rfl rfl rfl rfl rfl

@[grind ←]
theorem setField
    (h : Heap) (o : Instance) (name : String) (v : Value) :
    Calm h (h.setField o name v) := by
  exact modifyObject h _ _

@[grind ←]
theorem tell
    (h : Heap) (o : Instance) (e : BuildEvent) :
    Calm h (h.tell o e) := by
  exact modifyObject h _ _

@[grind ←]
theorem beginField
    (h : Heap) (name : String) (env : Env) :
    Calm h (h.beginField name env) := by
  unfold Heap.beginField Heap.tellReceiver
  split
  · exact tell h _ _
  · exact of_eq rfl rfl rfl rfl rfl

@[grind ←]
theorem fillField
    (h : Heap) (o : Instance) (name : String) (env : Env) (v : Value) :
    Calm h (h.fillField o name env v) := by
  unfold Heap.fillField Heap.tellReceiver
  split
  · exact of_eq rfl rfl rfl rfl rfl
  · exact setField h o name v

/-- Static fields have nothing to do with frames. -/
@[grind ←]
theorem modifyStatics
    (h : Heap) (id : Nat) (f : Statics → Statics) :
    Calm h (h.modifyStatics id f) := by
  exact of_eq rfl rfl rfl rfl rfl

@[grind ←]
theorem setStatic
    (h : Heap) (id : Nat) (name : String) (slot : StaticField) :
    Calm h (h.setStatic id name slot) := by
  exact modifyStatics h _ _

@[grind ←]
theorem fillStatic
    (h : Heap) (id : Nat) (name : String) (slot : StaticField) :
    Calm h (h.fillStatic id name slot) := by
  exact modifyStatics h _ _

/-- Opening a future adds one. -/
@[grind ←]
theorem newFuture
    (h : Heap) (kind : FutureKind) :
    Calm h (h.newFuture kind).2 := by
  refine ⟨rfl, Nat.le_refl _, fun _ => rfl, ⟨[], ?_, ?_, fun _ => rfl⟩, Nat.le_refl _, ?_⟩
  · simp [Heap.newFuture]
  · simp
  · simp [Heap.newFuture]

/-- A future queues nothing but continuations, and only if there is one. -/
theorem queue
    {js : List Job} {futures : Array (Future Continuation)}
    (size : h.futures.size ≤ futures.size)
    (spawns : ∀ id body env, .thread id body env ∉ js)
    (none : futures.size = 0 → js = []) :
    Calm h { h with futures := futures, jobs := h.jobs ++ js } := by
  exact ⟨rfl, Nat.le_refl _, fun _ => rfl, ⟨js, rfl, spawns, none⟩, Nat.le_refl _, size⟩

@[grind ←]
theorem settle
    (h : Heap) (id : Nat) (s : Settlement) :
    Calm h (h.settle id s).2 := by
  unfold Heap.settle
  split
  · exact refl h
  · next f ks hs =>
      refine queue ?_ ?_ fun hsize => ?_
      · simp
      · simp
      · -- without futures every number stands for the default one, on which nothing waits
        have hnone : h.futures = #[] := by
          simpa using hsize
        have hfuture : h.future id = default := by
          simp [Heap.future, hnone]
        rw [hfuture] at hs
        simp only [Future.settle?] at hs
        split at hs
        · cases hs
        · cases hs
          rfl

/-- A new future after whose settlement of another one a continuation is queued. -/
theorem chain
    (h : Heap) (id : Nat) (k : Continuation) (kind : FutureKind) :
    Calm h ((h.newFuture kind).2.onSettle id k) := by
  unfold Heap.onSettle
  split
  · refine ⟨rfl, Nat.le_refl _, fun _ => rfl, ⟨[], ?_, ?_, fun _ => rfl⟩, Nat.le_refl _, ?_⟩
    · simp [Heap.newFuture]
    · simp
    · simp [Heap.newFuture]
  · refine queue ?_ ?_ ?_
    · simp [Heap.newFuture]
    · simp
    · simp [Heap.newFuture]

end Calm

namespace Composed

variable {E : Engine} {r : Role} {α : Type}

/-! ### Checks and bindings -/

@[grind ←]
theorem makeArray
    (xs : List Value) :
    Composed E r (Eval.makeArray xs) := by
  unfold Eval.makeArray
  grind

@[grind ←]
theorem callback
    (callee : Value) (args : List Value) :
    Composed E r (Eval.callback E callee args) := by
  unfold Eval.callback
  grind

@[grind ←]
theorem check
    (v : Value) (declared : TypeExpr) (bs : Bindings) (what : String) :
    Composed E r (Eval.check v declared bs what) := by
  unfold Eval.check
  grind

@[grind ←]
theorem checkOption
    (v : Value) (declared : Option TypeExpr) (bs : Bindings) (what : String) :
    Composed E r (Eval.checkOption v declared bs what) := by
  unfold Eval.checkOption
  grind

@[grind ←]
theorem requireAccess
    (visibility : Visibility) (member declaring : String) (env : Env) :
    Composed E r (Eval.requireAccess visibility member declaring env) := by
  unfold Eval.requireAccess
  grind

@[grind ←]
theorem define
    (env : Env) (name : String) (v : Value) (kind : BindingKind) (type : Option TypeExpr) :
    Composed E r (Eval.define env name v kind type) := by
  unfold Eval.define
  grind

/-! ### Frames -/

/-- The statements of a body belong to its frame. -/
@[grind ←]
theorem execList
    {envs : List Env} {env : Env} (last : Value) (body : List Stmt)
    (henv : env ∈ envs) :
    Composed E (.statement envs) (Eval.execList E env last body) := by
  induction body generalizing last with
  | nil =>
      exact .pure _
  | cons s rest ih =>
      unfold Eval.execList
      grind

@[grind ←]
theorem execBody
    {envs : List Env} {env : Env} (body : List Stmt)
    (henv : env ∈ envs) :
    Composed E (.statement envs) (Eval.execBody E body env) := by
  exact .body (execList _ _ henv)

/-- The code of a call belongs to its frame. -/
@[grind ←]
theorem runCode
    {envs : List Env} {env : Env} (code : LambdaBody Expr Stmt)
    (henv : env ∈ envs) :
    Composed E (.statement envs) (Eval.runCode E code env) := by
  cases code with
  | block ss =>
      exact execBody ss henv
  | expr e =>
      exact .bind (evalTask e env) fun v => .pure _

@[grind ←]
theorem makeDeferredCall
    (d : Deferred) :
    Composed E r (Eval.makeDeferredCall E d) := by
  unfold Eval.makeDeferredCall
  grind

/-- A frame is left when its body has stopped. -/
@[grind ←]
theorem leaveFrame
    (env : Env) (code : LambdaBody Expr Stmt) :
    Composed E (.frame env) (Eval.leaveFrame E env code) := by
  exact .leave (runCode code List.mem_cons_self) makeDeferredCall

@[grind ←]
theorem resultOf
    (flow : Flow) :
    Composed E r (Eval.resultOf flow) := by
  unfold Eval.resultOf
  grind

@[grind ←]
theorem requireArgument
    (i : Invocation) (p : Param) (arg : Value) (t : TypeExpr) :
    Composed E r (Eval.requireArgument i p arg t) := by
  unfold Eval.requireArgument
  grind

@[grind ←]
theorem bindArguments
    (i : Invocation) (env : Env) (ps : List Param) (vs : List Value) :
    Composed E r (Eval.bindArguments i env ps vs) := by
  fun_induction Eval.bindArguments i env ps vs <;> grind

@[grind ←]
theorem fitArguments
    (ps : List Param) (args : List Value) :
    Composed E r (Eval.fitArguments ps args) := by
  unfold Eval.fitArguments
  grind

@[grind ←]
theorem checkResult
    (i : Invocation) (v : Value) :
    Composed E r (Eval.checkResult i v) := by
  unfold Eval.checkResult
  grind

/-- A call opens a frame and runs the body in it. -/
theorem runFrame
    (i : Invocation) (args : List Value) :
    Composed E .call (Eval.runFrame E i args) := by
  unfold Eval.runFrame
  refine .bind (fitArguments _ _) fun args => .openFrame fun env => ?_
  grind

@[grind ←]
theorem invoke
    (i : Invocation) (args : List Value) (site : Span) :
    Composed E r (Eval.invoke E i args site) := by
  exact .plain (.called (runFrame i args))

@[grind ←]
theorem bodyOf
    (m : Method) :
    Composed E r (Eval.bodyOf m) := by
  unfold Eval.bodyOf
  grind

@[grind ←]
theorem runMethod
    (o : Instance) (m : Method) (args : List Value) (site : Span) :
    Composed E r (Eval.runMethod E o m args site) := by
  unfold Eval.runMethod
  grind

@[grind ←]
theorem runStatic
    (m : Method) (args : List Value) (site : Span) :
    Composed E r (Eval.runStatic E m args site) := by
  unfold Eval.runStatic
  grind

@[grind ←]
theorem selectMethod
    (candidates : List Method) (argc : Nat) :
    Composed E r (Eval.selectMethod candidates argc) := by
  unfold Eval.selectMethod
  grind

@[grind ←]
theorem bindingsOfCall
    (f : Function) (args : List Value) (typeArgs : List TypeExpr) :
    Composed E r (Eval.bindingsOfCall f args typeArgs) := by
  unfold Eval.bindingsOfCall
  grind

@[grind ←]
theorem callFunction
    (f : Function) (args : List Value) (typeArgs : List TypeExpr) (site : Span) :
    Composed E r (Eval.callFunction E f args typeArgs site) := by
  unfold Eval.callFunction
  grind

/-! ### Construction -/

@[grind ←]
theorem instanceTypeArgs
    (c : ClassDef) (given : List TypeExpr) (ps : List Param) (args : List Value) :
    Composed E r (Eval.instanceTypeArgs c given ps args) := by
  unfold Eval.instanceTypeArgs
  grind

@[grind ←]
theorem initFieldList
    (o : Instance) (bs : Bindings) (env : Env) (fs : List FieldDef) :
    Composed E r (Eval.initFieldList E o bs env fs) := by
  induction fs with
  | nil =>
      exact .pure _
  | cons f rest ih =>
      unfold Eval.initFieldList
      refine .bind (.modify fun h => .beginField h _ _) fun _ => ?_
      grind

/-- The first values of fields are computed in a frame that runs no body. -/
theorem fillFields
    (o : Instance) (cs : List ClassDef) :
    Composed E .expression (Eval.fillFields E o cs) := by
  induction cs with
  | nil =>
      exact .pure _
  | cons c rest ih =>
      unfold Eval.fillFields
      split
      · exact .openFields fun env => .bind (initFieldList _ _ _ _) fun _ => ih
      · exact ih

theorem build
    (o : Instance) (constructor : Option Method) (args : List Value) (site : Span) :
    Composed E .expression (Eval.build E o constructor args site) := by
  unfold Eval.build
  refine .bind (fillFields _ _) fun _ => ?_
  grind

@[grind ←]
theorem construct
    (o : Instance) (constructor : Option Method) (args : List Value) (site : Span) :
    Composed E r (Eval.construct E o constructor args site) := by
  exact .plain (.built (build o constructor args site))

@[grind ←]
theorem selectConstructor
    (cls : String) (table : List Method) (argc : Nat) :
    Composed E r (Eval.selectConstructor cls table argc) := by
  unfold Eval.selectConstructor
  grind

@[grind ←]
theorem checkComponents
    (c : ClassDef) (bs : Bindings) (fields : Assoc Value) (ps : List Param) (vs : List Value) :
    Composed E r (Eval.checkComponents c bs fields ps vs) := by
  fun_induction Eval.checkComponents c bs fields ps vs <;> grind

@[grind ←]
theorem makeRecord
    (c : ClassDef) (given : List TypeExpr) (args : List Value) :
    Composed E r (Eval.makeRecord c given args) := by
  have hchecked : Composed E r (do
      let typeArgs ← Eval.instanceTypeArgs c given c.own.components args
      Eval.unlessFault ((← Eval.heap).boundFault? c.own.typeParams typeArgs)
      let fields ← Eval.checkComponents c (pairParams c.own.typeParams typeArgs) ∅
        c.own.components args
      let o ← Eval.change fun h => h.newRecord c typeArgs fields
      Pure.pure (Value.object o)) := by
    refine .bind (instanceTypeArgs _ _ _ _) fun typeArgs => .bind heap fun h => ?_
    grind
  unfold Eval.makeRecord
  grind

@[grind ←]
theorem makeInstance
    (c : ClassDef) (given : List TypeExpr) (args : List Value) (site : Span) :
    Composed E r (Eval.makeInstance E c given args site) := by
  unfold Eval.makeInstance
  split
  · refine .bind (raiseFault _) fun _ => .bind (selectConstructor _ _ _) fun m => ?_
    grind
  · refine .bind (selectConstructor _ _ _) fun m => ?_
    grind

@[grind ←]
theorem newInstance
    (c : ClassDef) (given : List TypeExpr) (args : List Value) (site : Span) :
    Composed E r (Eval.newInstance E c given args site) := by
  unfold Eval.newInstance
  grind

@[grind ←]
theorem throwNew
    (cls message : String) :
    Composed E r (Eval.throwNew E cls message : Eval α) := by
  unfold Eval.throwNew
  grind

/-! ### Texts -/

@[grind ←]
theorem entryTexts
    (m : KeyedMap) :
    Composed E r (Eval.entryTexts E m) := by
  unfold Eval.entryTexts
  grind

@[grind ←]
theorem textOf
    (v : Value) :
    Composed E r (Eval.textOf E v) := by
  unfold Eval.textOf
  refine .bind heap fun h => ?_
  split
  · exact .pure _
  · grind
  · grind
  · grind
  · grind
  · exact .pure _

end Composed
end ScriptEngine
