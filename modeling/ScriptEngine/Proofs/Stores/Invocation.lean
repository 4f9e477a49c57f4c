import ScriptEngine.Proofs.Stores.Lookups

/-!
# Calls that keep the stores

What runs a body keeps the stores if the engine does: it is given values that are known, binds them
to names without a type, and checks the result.  A check that has passed tells that the value obeys
its type; that is what later changes need.
-/

namespace ScriptEngine

/-- An engine whose computations may be performed by threads that know what they are given. -/
class Careful (E : Engine) : Prop where
  eval : ∀ (S : World) (e : Expr) (env : Env), Keeps S (E.eval e env)
  exec : ∀ (S : World) (s : Stmt) (env : Env), Keeps S (E.exec s env)
  call : ∀ {S : World} {callee : Value} {args : List Value} (typeArgs : List TypeExpr) (site : Span),
    Knows S callee → Knows S args → Keeps S (E.call callee args typeArgs site)
  text : ∀ {S : World} {v : Value}, Knows S v → Keeps S (E.text v)

/-- The parameters that are checked one by one get values of their types. -/
def Invocation.Admits (i : Invocation) (ps : List Param) (vs : List Value) : Prop :=
  ∀ e ∈ ps.zip vs, e.1.variadic = false → ObeysOption e.2 e.1.type i.bindings

namespace Keeps

variable {S : World} {E : Engine} {α : Type} [Carrier α]

/-! ### Checks -/

theorem check
    (v : Value) (t : TypeExpr) (bs : Bindings) (what : String) :
    Keeps S (Eval.check v t bs what) fun _ => Obeys v t bs := by
  exact heap.bind fun h _ => (unlessFault _).imp fun _ hnone => .of_checkFault? hnone

theorem checkOption
    (v : Value) (t : Option TypeExpr) (bs : Bindings) (what : String) :
    Keeps S (Eval.checkOption v t bs what) fun _ => ObeysOption v t bs := by
  cases t with
  | none =>
      refine pure (knows_unit _) fun t ht => ?_
      cases ht
  | some t =>
      refine (check v t bs what).imp fun _ hv t' ht => ?_
      cases ht
      exact hv

theorem requireAccess
    (visibility : Visibility) (member declaring : String) (env : Env) :
    Keeps S (Eval.requireAccess visibility member declaring env) := by
  unfold Eval.requireAccess
  split
  · exact pure (knows_unit _) trivial
  · refine heap.bind fun h _ => ite (fun _ => ?_) fun _ => fault _
    exact pure (knows_unit _) trivial

/-! ### Scopes -/

theorem openBlock
    (env : Env) :
    Keeps S (Eval.openBlock env) := by
  exact quietly fun w h _ _ => ⟨.child w h env, by simp [knows_list], trivial⟩

theorem openFrame
    {receiver : Option Receiver} (env : Env) (name : String) (hreceiver : Knows S receiver) :
    Keeps S (Eval.openFrame env name receiver) := by
  refine quietly fun w h hS _ => ⟨?_, by simp [knows_list], trivial⟩
  exact .enter h env name (hreceiver.mono hS)

/-- A name is bound to a known value that obeys its type. -/
theorem define
    {v : Value} {type : Option TypeExpr} (env : Env) (name : String) (kind : BindingKind)
    (hv : Knows S v) (hobeys : ∀ w, S ⊆ w → (⟨v, kind, type⟩ : Binding).Obeys w) :
    Keeps S (Eval.define env name v kind type) := by
  exact modifyQuietly fun w h hS _ => .define h env name (hv.mono hS) (hobeys w hS)

/-- A name without a type may be bound to anything. -/
theorem defineUntyped
    {v : Value} (env : Env) (name : String) (kind : BindingKind) (hv : Knows S v) :
    Keeps S (Eval.define env name v kind none) := by
  refine define env name kind hv fun w _ t ht => ?_
  cases ht

theorem makeArray
    {xs : List Value} (hxs : Knows S xs) :
    Keeps S (Eval.makeArray xs) := by
  exact quietly fun w h hS _ => ⟨.newArray h (hxs.mono hS), knows_varray, trivial⟩

/-! ### Bodies -/

theorem execList
    [Careful E] {last : Value} (env : Env) (ss : List Stmt) (hlast : Knows S last) :
    Keeps S (Eval.execList E env last ss) := by
  induction ss generalizing S last with
  | nil =>
      exact pure hlast trivial
  | cons s rest ih =>
      refine (Careful.exec S s env).andThen fun flow => ?_
      split
      · exact ih (Knows.self S (Flow.value _))
      · exact pure (Knows.self S _) trivial

theorem execBody
    [Careful E] (body : List Stmt) (env : Env) :
    Keeps S (Eval.execBody E body env) := by
  exact tracked (execList env body knows_vnil)

theorem runCode
    [Careful E] (code : LambdaBody Expr Stmt) (env : Env) :
    Keeps S (Eval.runCode E code env) := by
  cases code with
  | block body =>
      exact execBody body env
  | expr e =>
      exact (Careful.eval S e env).andThen fun v => pure (Knows.self S v) trivial

theorem makeDeferredCall
    [Careful E] (d : Deferred) :
    Keeps S (Eval.makeDeferredCall E d) := by
  refine (Careful.eval S d.call d.env).andThen fun v => ?_
  split
  · exact pure (knows_unit _) trivial
  · refine ite (fun _ => ?_) fun _ => pure (knows_unit _) trivial
    refine (Careful.call [] d.span (Knows.self S v) knows_nil).andThen fun _ => ?_
    exact pure (knows_unit _) trivial

theorem runDefers
    [Careful E] {outcome : Except Signal Flow} (frame : ScopeId) (ds : List Deferred)
    (houtcome : Knows S outcome) :
    Keeps S (Eval.runDefers E frame outcome ds) := by
  induction ds generalizing S outcome with
  | nil =>
      exact pure houtcome trivial
  | cons d earlier ih =>
      refine (note _).andThen fun _ => ?_
      refine (attempt (mapFault (makeDeferredCall d))).bind fun o _ => ?_
      cases o with
      | ok u =>
          exact (note _).skip fun _ => ih ((houtcome.more _).more _)
      | error s =>
          refine (note _).skip fun _ => (supersede outcome).andThen fun _ => ih ?_
          exact (Knows.self _ (Except.error s : Except Signal Unit)).more _

theorem takeDefers
    (env : Env) :
    Keeps S (Eval.takeDefers env) := by
  exact quietly fun w h _ _ => ⟨.takeDeferred w h env, by simp [knows_list], trivial⟩

theorem leaveFrame
    [Careful E] (env : Env) (code : LambdaBody Expr Stmt) :
    Keeps S (Eval.leaveFrame E env code) := by
  refine currentFrame.andThen fun caller => (note _).andThen fun _ => ?_
  refine (within ?_).andThen fun outcome => (note _).andThen fun _ => ?_
  · refine (attempt (runCode code env)).bind fun outcome _ => ?_
    refine (takeDefers env).andThen fun ds => (note _).andThen fun _ => (note _).skip fun _ => ?_
    exact runDefers _ _ (by simp)
  · exact ofOutcome (by simp) fun _ _ => trivial

/-! ### Calls -/

theorem resultOf
    {flow : Flow} (hflow : Knows S flow) :
    Keeps S (Eval.resultOf flow) := by
  cases flow with
  | value v =>
      exact pure hflow trivial
  | ret v =>
      exact pure hflow trivial
  | stop =>
      exact fault _
  | next =>
      exact fault _

theorem requireArgument
    (i : Invocation) (p : Param) (arg : Value) (t : TypeExpr) :
    Keeps S (Eval.requireArgument i p arg t) fun _ => p.variadic = false → Obeys arg t i.bindings := by
  unfold Eval.requireArgument
  split
  · next hvariadic =>
      refine heap.bind fun h _ => (forM fun v _ => (check _ _ _ _).plain).imp fun _ _ hfixed => ?_
      rw [hvariadic] at hfixed
      cases hfixed
  · next hvariadic _ =>
      refine pure (knows_unit _) fun hfixed => ?_
      rw [hvariadic] at hfixed
      cases hfixed
  · exact (check _ _ _ _).imp fun _ hv _ => hv

theorem bindArguments
    {vs : List Value} (i : Invocation) (env : Env) (ps : List Param) (hvs : Knows S vs) :
    Keeps S (Eval.bindArguments i env ps vs) fun _ => i.Admits ps vs := by
  induction ps generalizing S vs with
  | nil =>
      exact pure (knows_unit _) (by simp [Invocation.Admits])
  | cons p ps ih =>
      cases vs with
      | nil =>
          exact pure (knows_unit _) (by simp [Invocation.Admits])
      | cons v vs =>
          obtain ⟨hv, hvs⟩ := knows_cons.mp hvs
          have hnext (hfirst : p.variadic = false → ObeysOption v p.type i.bindings) :
              Keeps S (do
                Eval.define env p.name v .varBinding none
                Eval.bindArguments i env ps vs) fun _ => i.Admits (p :: ps) (v :: vs) := by
            refine (defineUntyped _ _ _ hv).andThen fun _ => ?_
            refine (ih (hvs.more _)).imp fun _ hrest e he => ?_
            rcases List.mem_cons.mp he with rfl | he
            · exact hfirst
            · exact hrest e he
          unfold Eval.bindArguments
          dsimp only
          split
          · next t ht =>
              refine (requireArgument i p v t).bind fun _ hobeys => (hnext fun hfixed t' ht' => ?_).more _
              rw [ht] at ht'
              cases ht'
              exact hobeys hfixed
          · next hnone =>
              refine hnext fun _ t ht => ?_
              rw [hnone] at ht
              cases ht

theorem fitArguments
    {args : List Value} (ps : List Param) (hargs : Knows S args) :
    Keeps S (Eval.fitArguments ps args) := by
  have hpacked := Overload.flatten_pack ps args
  unfold Eval.fitArguments
  split
  · next fixed rest heq =>
      rw [heq] at hpacked
      have hknown : Knows S (fixed ++ rest) := hpacked ▸ hargs
      obtain ⟨hfixed, hrest⟩ := knows_append.mp hknown
      refine (makeArray hrest).andThen fun v => pure ?_ trivial
      simp [hfixed]
  · next fixed heq =>
      rw [heq] at hpacked
      have hknown : Knows S (fixed ++ []) := hpacked ▸ hargs
      exact pure (knows_append.mp hknown).1 trivial

theorem checkResult
    {v : Value} (i : Invocation) (hv : Knows S v) :
    Keeps S (Eval.checkResult i v) fun a => ∀ t, i.returns = some t → Eval.isVoid t = false →
      Obeys a t i.bindings := by
  unfold Eval.checkResult
  split
  · next hnone =>
      refine pure hv fun t ht => ?_
      rw [hnone] at ht
      cases ht
  · next t ht =>
      refine ite (fun hvoid => ?_) fun _ => ?_
      · refine pure knows_vnil fun t' ht' hnot => ?_
        rw [ht] at ht'
        cases ht'
        rw [hvoid] at hnot
        cases hnot
      · refine (check _ _ _ _).bind fun _ hobeys => pure (hv.more _) fun t' ht' _ => ?_
        rw [ht] at ht'
        cases ht'
        exact hobeys

theorem runFrame
    [Careful E] {args : List Value} (i : Invocation) (hreceiver : Knows S i.receiver)
    (hlocals : Knows S i.locals) (hargs : Knows S args) :
    Keeps S (Eval.runFrame E i args) fun a => ∀ t, i.returns = some t → Eval.isVoid t = false →
      Obeys a t i.bindings := by
  refine (fitArguments i.params hargs).andThen fun args => ?_
  refine (openFrame _ _ (hreceiver.more _)).andThen fun env => ?_
  refine (forM fun l hl => ?_).andThen fun _ => ?_
  · have hl' := hlocals.of_mem hl
    exact defineUntyped _ _ _ (by simp [(knows_pair.mp hl').2])
  · refine (bindArguments i env i.params (by simp)).bind fun _ _ => ?_
    refine (leaveFrame env i.body).andThen fun flow => ?_
    exact (resultOf (by simp)).andThen fun v => checkResult i (by simp)

theorem invoke
    [Careful E] {args : List Value} (i : Invocation) (site : Span)
    (hreceiver : Knows S i.receiver) (hlocals : Knows S i.locals) (hargs : Knows S args) :
    Keeps S (Eval.invoke E i args site) fun a => ∀ t, i.returns = some t → Eval.isVoid t = false →
      Obeys a t i.bindings := by
  exact deeper (mapFault (runFrame i hreceiver hlocals hargs))

theorem knows_componentValues
    {h : Heap} (hh : Knows S h) (o : Instance) :
    Knows S (Eval.componentValues h o) := by
  refine knows_list.mpr fun e he => ?_
  obtain ⟨p, -, rfl⟩ := List.mem_map.mp he
  exact knows_pair.mpr ⟨knows_string _, (hh.field? o p.name).getD knows_vnil⟩

theorem bodyOf
    (m : Method) :
    Keeps S (Eval.bodyOf m) := by
  unfold Eval.bodyOf
  split
  · exact pure (by simp [knows_list]) trivial
  · exact fault _

theorem runMethod
    [Careful E] {o : Instance} {args : List Value} (m : Method) (site : Span) (ho : Knows S o)
    (hargs : Knows S args) :
    Keeps S (Eval.runMethod E o m args site) := by
  unfold Eval.runMethod
  refine (bodyOf m).andThen fun body => ?_
  refine guarded _ ?_
  refine heap.bind fun h _ => (invoke _ _ ?_ ?_ ?_).plain
  · simp [ho]
  · dsimp only
    split
    · exact knows_componentValues (by simp) o
    · exact knows_nil
  · simp [hargs]

theorem runStatic
    [Careful E] {args : List Value} (m : Method) (site : Span) (hargs : Knows S args) :
    Keeps S (Eval.runStatic E m args site) := by
  refine (bodyOf m).andThen fun body => (invoke _ _ knows_none knows_nil ?_).plain
  simp [hargs]

theorem selectMethod
    (candidates : List Method) (argc : Nat) :
    Keeps S (Eval.selectMethod candidates argc) := by
  unfold Eval.selectMethod
  split
  · exact pure (knows_method _) trivial
  · exact fault _

theorem bindingsOfCall
    (f : Function) (args : List Value) (typeArgs : List TypeExpr) :
    Keeps S (Eval.bindingsOfCall f args typeArgs) := by
  unfold Eval.bindingsOfCall
  refine ite (fun _ => pure knows_nil trivial) fun _ => heap.bind fun h _ => ?_
  refine (unlessFault _).bind fun _ _ => pure ?_ trivial
  simp [knows_list]

theorem callFunction
    [Careful E] {args : List Value} (f : Function) (typeArgs : List TypeExpr) (site : Span)
    (hargs : Knows S args) :
    Keeps S (Eval.callFunction E f args typeArgs site) := by
  unfold Eval.callFunction
  refine guarded _ ?_
  refine (bindingsOfCall f args typeArgs).andThen fun bs => ?_
  exact (invoke _ _ knows_none knows_nil (hargs.more _)).plain

/-- A builtin calls back what it was given. -/
theorem callback
    [Careful E] {callee : Value} {args : List Value} (hcallee : Knows S callee)
    (hargs : Knows S args) :
    Keeps S (Eval.callback E callee args) := by
  refine Careful.call [] default hcallee ?_
  split
  · split
    · exact hargs
    · exact hargs.of_subset (List.take_subset _ _)
  · exact hargs

end Keeps
end ScriptEngine
