import ScriptEngine.Proofs.Evaluation.Checks
import ScriptEngine.Proofs.Resets.Law

/-!
# Calls that overlook what is old

A call of declared code, the construction of an instance and the text of a value overlook what is
old if the engine does and what they are given is recent.
-/

namespace ScriptEngine

/-- What a call is made of. -/
instance : Dated Invocation :=
  ⟨fun t i => Recent t i.closure ∧ Recent t i.receiver ∧ Recent t i.locals⟩

/-- A declared class of a renewed heap. -/
theorem Heap.Renewed.cls?
    {t : Epoch} {h : Heap} {name : String} {c : ClassDef} (hh : h.Renewed t)
    (hc : Registry.cls? h.registry name = some c) :
    Recent t c := by
  exact hh.registry.1.find? name c hc

theorem Heap.Renewed.interface?
    {t : Epoch} {h : Heap} {name : String} {i : Interface} (hh : h.Renewed t)
    (hi : Registry.interface? h.registry name = some i) :
    Recent t i := by
  exact hh.registry.2.find? name i hi

/-- What the code of a recent scope stands for does not depend on what is old. -/
theorem Eval.bindingsInMethod_forget
    {t : Epoch} {h : Heap} {env : Env} (henv : Recent t env) :
    Eval.bindingsInMethod (h.forget t) env = Eval.bindingsInMethod h env := by
  rw [Eval.bindingsInMethod, Eval.bindingsInMethod, Heap.scopes_forget, Scopes.receiver_forget henv]

namespace Oblivious

variable {t : Epoch} {E : Engine} {α : Type} {P : α → Prop} {env : Env} {v : Value}
variable {args : List Value}

/-! ### Checks -/

theorem check
    (hv : Recent t v) (type : TypeExpr) (bs : Bindings) (what : String) :
    Oblivious t (Eval.check v type bs what) fun _ => True := by
  refine look (fun h hh => ?_) fun h _ => unlessFault _
  rw [Heap.checkFault?_forget hh hv]

theorem checkOption
    (hv : Recent t v) (type : Option TypeExpr) (bs : Bindings) (what : String) :
    Oblivious t (Eval.checkOption v type bs what) fun _ => True := by
  cases type with
  | none =>
      exact pure trivial
  | some type =>
      exact check hv type bs what

theorem requireAccess
    (visibility : Visibility) (member declaring : String) (henv : Recent t env) :
    Oblivious t (Eval.requireAccess visibility member declaring env) fun _ => True := by
  have hasked : Oblivious t (do
      let h ← Eval.heap
      if Eval.mayAccess h visibility declaring (h.scopes.receiver env) then Pure.pure ()
      else Eval.fault (.access visibility member declaring)) fun _ => True := by
    refine look (fun h _ => ?_) fun h _ => ite (fun _ => pure trivial) fun _ => fault _
    rw [Heap.scopes_forget, Scopes.receiver_forget henv]
    rfl
  cases visibility with
  | visible =>
      exact pure trivial
  | hidden =>
      exact hasked
  | guarded =>
      exact hasked

/-! ### Scopes -/

theorem openBlock
    (henv : Recent t env) :
    Oblivious t (Eval.openBlock env) (Recent t) := by
  exact change (.child henv)

theorem openFrame
    {receiver : Option Receiver} (henv : Recent t env) (name : String)
    (hreceiver : Recent t receiver) :
    Oblivious t (Eval.openFrame env name receiver) (Recent t) := by
  exact change (.enter henv name hreceiver)

theorem define
    (henv : Recent t env) (name : String) (hv : Recent t v) (kind : BindingKind)
    (type : Option TypeExpr) :
    Oblivious t (Eval.define env name v kind type) fun _ => True := by
  exact modify (.define henv name hv)

theorem makeArray
    {xs : List Value} (hxs : Recent t xs) :
    Oblivious t (Eval.makeArray xs) (Recent t) := by
  exact change (.newArray (recent_toArray.mpr hxs))

/-! ### Bodies -/

section Bodies

variable [Unmindful t E]

theorem execList
    {last : Value} (henv : Recent t env) (hlast : Recent t last) (ss : List Stmt) :
    Oblivious t (Eval.execList E env last ss) (Recent t) := by
  induction ss generalizing last with
  | nil =>
      exact pure hlast
  | cons s rest ih =>
      refine (Unmindful.exec henv s).bind fun flow hflow => ?_
      split
      · exact ih hflow
      · exact pure hflow

theorem execBody
    (henv : Recent t env) (body : List Stmt) :
    Oblivious t (Eval.execBody E body env) (Recent t) := by
  exact tracked (execList henv recent_vnil body)

theorem runCode
    (henv : Recent t env) (code : LambdaBody Expr Stmt) :
    Oblivious t (Eval.runCode E code env) (Recent t) := by
  cases code with
  | block body =>
      exact execBody henv body
  | expr e =>
      exact (Unmindful.eval henv e).bind fun v hv => pure hv

theorem makeDeferredCall
    {d : Deferred} (hd : Recent t d) :
    Oblivious t (Eval.makeDeferredCall E d) fun _ => True := by
  refine (Unmindful.eval hd d.call).bind fun v hv => ?_
  split
  · exact pure trivial
  · refine ite (fun _ => ?_) fun _ => pure trivial
    exact (Unmindful.call [] d.span hv recent_nil).bind fun _ _ => pure trivial

theorem runDefers
    {outcome : Except Signal Flow} {ds : List Deferred} (frame : ScopeId)
    (houtcome : Recent t outcome) (hds : Recent t ds) :
    Oblivious t (Eval.runDefers E frame outcome ds) (Recent t) := by
  induction ds generalizing outcome with
  | nil =>
      exact pure houtcome
  | cons d earlier ih =>
      obtain ⟨hd, hearlier⟩ := recent_cons.mp hds
      refine (note _).bind fun _ _ => (attempt (mapFault (makeDeferredCall hd))).bind fun o ho => ?_
      cases o with
      | ok u =>
          exact (note _).bind fun _ _ => ih houtcome hearlier
      | error s =>
          have hs : Recent t (Except.error s : Except Signal Flow) := ho
          exact (note _).bind fun _ _ => (supersede outcome).bind fun _ _ => ih hs hearlier

theorem takeDefers
    (henv : Recent t env) :
    Oblivious t (Eval.takeDefers env) (Recent t) := by
  exact change (.takeDeferred henv)

theorem leaveFrame
    (henv : Recent t env) (code : LambdaBody Expr Stmt) :
    Oblivious t (Eval.leaveFrame E env code) (Recent t) := by
  unfold Eval.leaveFrame
  refine inFrame fun caller => (note _).bind fun _ _ => ?_
  refine (within (P := Recent t) ?_).bind fun outcome houtcome => ?_
  · refine (attempt (runCode henv code)).bind fun outcome houtcome => ?_
    refine (takeDefers henv).bind fun ds hds => ?_
    refine (note _).bind fun _ _ => (note _).bind fun _ _ => ?_
    exact runDefers _ (ended_recent.mp houtcome) (recent_reverse.mpr hds)
  · exact (note _).bind fun _ _ => ofOutcome (ended_recent.mpr houtcome)

/-! ### Calls -/

omit [Unmindful t E] in
theorem resultOf
    {flow : Flow} (hflow : Recent t flow) :
    Oblivious t (Eval.resultOf flow) (Recent t) := by
  cases flow with
  | value v =>
      exact pure hflow
  | ret v =>
      exact pure hflow
  | stop =>
      exact fault _
  | next =>
      exact fault _

omit [Unmindful t E] in
theorem requireArgument
    (i : Invocation) (p : Param) (hv : Recent t v) (type : TypeExpr) :
    Oblivious t (Eval.requireArgument i p v type) fun _ => True := by
  unfold Eval.requireArgument
  dsimp only
  split
  · refine look (fun h _ => ?_) fun h hh => forM fun a ha => check ?_ _ _ _
    · rw [Heap.array_forget (recent_varray.mp hv)]
    · exact hh.array (recent_varray.mp hv) a (Array.mem_toList_iff.mp ha)
  · exact pure trivial
  · exact check hv _ _ _

omit [Unmindful t E] in
theorem bindArguments
    {vs : List Value} (i : Invocation) (henv : Recent t env) (ps : List Param)
    (hvs : Recent t vs) :
    Oblivious t (Eval.bindArguments i env ps vs) fun _ => True := by
  induction ps generalizing vs with
  | nil =>
      exact pure trivial
  | cons p ps ih =>
      cases vs with
      | nil =>
          exact pure trivial
      | cons v vs =>
          obtain ⟨hv, hvs⟩ := recent_cons.mp hvs
          have hnext : Oblivious t (do
              Eval.define env p.name v .varBinding none
              Eval.bindArguments i env ps vs) fun _ => True :=
            (define henv _ hv _ _).bind fun _ _ => ih hvs
          unfold Eval.bindArguments
          dsimp only
          split
          · exact (requireArgument i p hv _).bind fun _ _ => hnext
          · exact hnext

omit [Unmindful t E] in
theorem fitArguments
    (ps : List Param) (hargs : Recent t args) :
    Oblivious t (Eval.fitArguments ps args) (Recent t) := by
  have hpacked := Overload.flatten_pack ps args
  unfold Eval.fitArguments
  split
  · next fixed rest heq =>
      rw [heq] at hpacked
      have hrecent : Recent t (fixed ++ rest) := hpacked ▸ hargs
      obtain ⟨hfixed, hrest⟩ := recent_append.mp hrecent
      refine (makeArray hrest).bind fun v hv => pure ?_
      simpa using ⟨hfixed, hv⟩
  · next fixed heq =>
      rw [heq] at hpacked
      have hrecent : Recent t (fixed ++ []) := hpacked ▸ hargs
      exact pure (recent_append.mp hrecent).1

omit [Unmindful t E] in
theorem checkResult
    (i : Invocation) (hv : Recent t v) :
    Oblivious t (Eval.checkResult i v) (Recent t) := by
  unfold Eval.checkResult
  split
  · exact pure hv
  · refine ite (fun _ => pure recent_vnil) fun _ => ?_
    exact (check hv _ _ _).bind fun _ _ => pure hv

theorem runFrame
    (i : Invocation) (hi : Recent t i) (hargs : Recent t args) :
    Oblivious t (Eval.runFrame E i args) (Recent t) := by
  obtain ⟨hclosure, hreceiver, hlocals⟩ := hi
  refine (fitArguments i.params hargs).bind fun args hargs => ?_
  refine (openFrame hclosure _ hreceiver).bind fun env henv => ?_
  refine (forM fun l hl => define henv _ (hlocals l hl).2 _ _).bind fun _ _ => ?_
  refine (bindArguments i henv i.params hargs).bind fun _ _ => ?_
  refine (leaveFrame henv i.body).bind fun flow hflow => ?_
  exact (resultOf hflow).bind fun v hv => checkResult i hv

theorem invoke
    (i : Invocation) (site : Span) (hi : Recent t i) (hargs : Recent t args) :
    Oblivious t (Eval.invoke E i args site) (Recent t) := by
  exact deeper (mapFault (runFrame i hi hargs))

omit [Unmindful t E] in
theorem bodyOf
    (m : Method) :
    Oblivious t (Eval.bodyOf m) fun _ => True := by
  unfold Eval.bodyOf
  split
  · exact pure trivial
  · exact fault _

theorem runMethod
    {o : Instance} {m : Method} (site : Span) (ho : Recent t o) (hm : Recent t m)
    (hargs : Recent t args) :
    Oblivious t (Eval.runMethod E o m args site) (Recent t) := by
  have hdeclaring : Recent t ((o.cls.lineage.find? (·.name == m.owner)).getD o.cls) :=
    ho.2.declaring
  refine (bodyOf m).bind fun body _ => guarded _ ?_
  refine look (fun h _ => ?_) fun h hh => invoke _ site ⟨hm, ?_, ?_⟩ hargs
  · have hvalues : Eval.componentValues (h.forget t) o = Eval.componentValues h o := by
      refine List.map_congr_left fun p _ => ?_
      rw [Heap.field?_forget ho]
    rw [hvalues]
  · exact recent_some.mpr ⟨ho, hdeclaring⟩
  · refine Recent.ite (Recent.map_list fun p _ => ⟨trivial, ?_⟩) recent_nil
    exact (hh.field? ho p.name).getD recent_vnil

theorem runStatic
    {m : Method} (site : Span) (hm : Recent t m) (hargs : Recent t args) :
    Oblivious t (Eval.runStatic E m args site) (Recent t) := by
  exact (bodyOf m).bind fun body _ => invoke _ site ⟨hm, recent_none, recent_nil⟩ hargs

omit [Unmindful t E] in
theorem selectMethod
    {candidates : List Method} (hcandidates : Recent t candidates) (argc : Nat) :
    Oblivious t (Eval.selectMethod candidates argc) (Recent t) := by
  unfold Eval.selectMethod
  split
  · next m hm =>
      exact pure (hcandidates m (Overload.mem_of_select hm))
  · exact fault _

omit [Unmindful t E] in
theorem bindingsOfCall
    (f : Function) (typeArgs : List TypeExpr) (hargs : Recent t args) :
    Oblivious t (Eval.bindingsOfCall f args typeArgs) fun _ => True := by
  refine ite (fun _ => pure trivial) fun _ => look (fun h hh => ?_) fun h _ => ?_
  · simp only [Heap.typeArgsFrom_forget hh hargs, Heap.boundFault?_forget]
  · exact (unlessFault _).bind fun _ _ => pure trivial

theorem callFunction
    {f : Function} (hf : Recent t f) (hargs : Recent t args) (typeArgs : List TypeExpr)
    (site : Span) :
    Oblivious t (Eval.callFunction E f args typeArgs site) (Recent t) := by
  unfold Eval.callFunction
  refine guarded _ ((bindingsOfCall f typeArgs hargs).bind fun bs _ => ?_)
  exact invoke _ site ⟨hf, recent_none, recent_nil⟩ hargs

theorem callback
    {callee : Value} (hcallee : Recent t callee) (hargs : Recent t args) :
    Oblivious t (Eval.callback E callee args) (Recent t) := by
  refine Unmindful.call [] default hcallee ?_
  split
  · exact .ite hargs (hargs.of_subset (List.take_subset _ _))
  · exact hargs

/-! ### Construction -/

omit [Unmindful t E] in
theorem instanceTypeArgs
    (c : ClassDef) (given : List TypeExpr) (ps : List Param) (hargs : Recent t args) :
    Oblivious t (Eval.instanceTypeArgs c given ps args) fun _ => True := by
  unfold Eval.instanceTypeArgs
  refine ite (fun _ => ite (fun _ => pure trivial) fun _ => fault _) fun _ => ?_
  refine ite (fun _ => pure trivial) fun _ => look (fun h hh => ?_) fun h _ => pure trivial
  rw [Heap.typeArgsFrom_forget hh hargs]

theorem initFieldList
    {o : Instance} (ho : Recent t o) (bs : Bindings) (henv : Recent t env) (fs : List FieldDef) :
    Oblivious t (Eval.initFieldList E o bs env fs) fun _ => True := by
  induction fs with
  | nil =>
      exact pure trivial
  | cons f rest ih =>
      have hnext {v : Value} (hv : Recent t v) : Oblivious t (do
          Eval.checkOption v f.type bs s!"field '{f.name}' of {o.cls.name}"
          Eval.modify (·.fillField o f.name env v)
          Eval.initFieldList E o bs env rest) fun _ => True :=
        (checkOption hv _ _ _).bind fun _ _ => (modify (.fillField ho henv f.name hv)).bind fun _ _ => ih
      unfold Eval.initFieldList
      refine (modify (.beginField henv f.name)).bind fun _ _ => ?_
      dsimp only
      split
      · exact (Unmindful.eval henv _).bind fun v hv => hnext hv
      · exact hnext recent_vnil

theorem fillFields
    {o : Instance} {cs : List ClassDef} (ho : Recent t o) (hcs : Recent t cs) :
    Oblivious t (Eval.fillFields E o cs) fun _ => True := by
  induction cs with
  | nil =>
      exact pure trivial
  | cons c rest ih =>
      obtain ⟨hc, hrest⟩ := recent_cons.mp hcs
      unfold Eval.fillFields
      dsimp only
      split
      · refine (openFrame hc.classClosure _ (recent_some.mpr ⟨ho, hc⟩)).bind fun env henv => ?_
        exact (initFieldList ho _ henv _).bind fun _ _ => ih hrest
      · exact ih hrest

theorem build
    {o : Instance} {constructor : Option Method} (ho : Recent t o)
    (hconstructor : Recent t constructor) (hargs : Recent t args) (site : Span) :
    Oblivious t (Eval.build E o constructor args site) fun _ => True := by
  have hlineage : Recent t o.cls.lineage.reverse := recent_reverse.mpr ho.2.lineage
  refine (fillFields ho hlineage).bind fun _ _ => ?_
  cases constructor with
  | none =>
      exact modify (.markBuilt ho)
  | some m =>
      refine (modify (.tell ho .entered)).bind fun _ _ => ?_
      refine (runMethod site ho (recent_some.mp hconstructor) hargs).bind fun _ _ => ?_
      exact modify (.markBuilt ho)

theorem construct
    {o : Instance} {constructor : Option Method} (ho : Recent t o)
    (hconstructor : Recent t constructor) (hargs : Recent t args) (site : Span) :
    Oblivious t (Eval.construct E o constructor args site) fun _ => True := by
  exact (note _).bind fun _ _ =>
    afterwards (build ho hconstructor hargs site) (.endConstruction ho)

omit [Unmindful t E] in
theorem selectConstructor
    {table : List Method} (cls : String) (htable : Recent t table) (argc : Nat) :
    Oblivious t (Eval.selectConstructor cls table argc) (Recent t) := by
  unfold Eval.selectConstructor
  refine ite (fun _ => ite (fun _ => pure recent_none) fun _ => fault _) fun _ => ?_
  split
  · next m hm =>
      exact pure (recent_some.mpr (htable m (Overload.mem_of_select hm)))
  · exact fault _

omit [Unmindful t E] in
theorem checkComponents
    {fields : Assoc Value} {vs : List Value} (c : ClassDef) (bs : Bindings)
    (hfields : Recent t fields) (ps : List Param) (hvs : Recent t vs) :
    Oblivious t (Eval.checkComponents c bs fields ps vs) (Recent t) := by
  induction ps generalizing vs fields with
  | nil =>
      exact pure hfields
  | cons p ps ih =>
      cases vs with
      | nil =>
          exact pure hfields
      | cons v vs =>
          obtain ⟨hv, hvs⟩ := recent_cons.mp hvs
          exact (checkOption hv _ _ _).bind fun _ _ => ih (hfields.insert hv p.name) hvs

omit [Unmindful t E] in
theorem checkBounds
    (ps : List TypeParam) (typeArgs : List TypeExpr) {f : Unit → Eval α}
    (hf : Oblivious t (f ()) P) :
    Oblivious t (do
      let h ← Eval.heap
      Eval.unlessFault (h.boundFault? ps typeArgs) >>= f) P := by
  refine look (fun h _ => ?_) fun h _ => (unlessFault _).bind fun _ _ => hf
  rw [Heap.boundFault?_forget]

omit [Unmindful t E] in
theorem makeRecord
    {c : ClassDef} (hc : Recent t c) (given : List TypeExpr) (hargs : Recent t args) :
    Oblivious t (Eval.makeRecord c given args) (Recent t) := by
  unfold Eval.makeRecord
  refine guarded _ ((instanceTypeArgs c given _ hargs).bind fun typeArgs _ => ?_)
  refine checkBounds _ _ ?_
  refine (checkComponents c _ recent_assoc_empty _ hargs).bind fun fields hfields => ?_
  exact (change (.newRecord hc typeArgs hfields)).bind fun o ho => pure ho

theorem makeInstance
    {c : ClassDef} (hc : Recent t c) (given : List TypeExpr) (hargs : Recent t args)
    (site : Span) :
    Oblivious t (Eval.makeInstance E c given args site) (Recent t) := by
  unfold Eval.makeInstance
  refine guarded _ ((selectConstructor _ hc.effectiveConstructors _).bind fun m hm => ?_)
  refine (instanceTypeArgs c given _ hargs).bind fun typeArgs _ => checkBounds _ _ ?_
  refine (change (.newObject hc typeArgs none)).bind fun o ho => ?_
  exact (construct ho hm hargs site).bind fun _ _ => pure ho

theorem newInstance
    {c : ClassDef} (hc : Recent t c) (given : List TypeExpr) (hargs : Recent t args)
    (site : Span) :
    Oblivious t (Eval.newInstance E c given args site) (Recent t) := by
  unfold Eval.newInstance
  split
  · exact fault _
  · exact makeRecord hc given hargs
  · exact makeInstance hc given hargs site

theorem throwNew
    (cls message : String) :
    Oblivious t (Eval.throwNew E cls message : Eval α) P := by
  refine look (fun h _ => rfl) fun h hh => ?_
  split
  · next c hfind =>
      refine (newInstance (hh.cls? hfind) [] (by simp) default).bind fun v hv => ?_
      exact throwValue hv
  · exact throwValue recent_vstr

/-! ### Texts -/

theorem entryTexts
    {m : KeyedMap} (hm : Recent t m) :
    Oblivious t (Eval.entryTexts E m) fun _ => True := by
  refine (mapM (P := fun _ => True) fun e he => ?_).bind fun parts _ => pure trivial
  obtain ⟨hkey, hvalue⟩ := hm e (Array.mem_toList_iff.mp he)
  exact (Unmindful.text hkey).bind fun k _ => (Unmindful.text hvalue).bind fun v _ => pure trivial

/-- The texts of several values. -/
theorem texts
    {vs : List Value} (hvs : Recent t vs) :
    Oblivious t (vs.mapM E.text) fun _ => True := by
  exact (mapM (P := fun _ => True) fun v hv => Unmindful.text (hvs v hv)).imp fun _ _ => trivial

theorem textOf
    (hv : Recent t v) :
    Oblivious t (Eval.textOf E v) fun _ => True := by
  cases v with
  | str s =>
      exact look (fun _ _ => rfl) fun _ _ => pure trivial
  | object o =>
      refine look (fun h hh => ?_) fun h hh => ?_
      · simp only [Heap.display_forget hh hv]
      · dsimp only
        split
        · next m hm =>
            have hmethod : Recent t m :=
              (recent_object.mp hv).2.usableMethods _ m (List.mem_of_find?_eq_some hm)
            refine (runMethod default hv hmethod recent_nil).bind fun w hw => ?_
            split
            · exact pure trivial
            · exact Unmindful.text hw
        · exact pure trivial
  | array id =>
      refine look (fun h _ => ?_) fun h hh => ?_
      · simp only [Heap.array_forget (recent_varray.mp hv)]
      · exact (texts (recent_toList.mpr (hh.array hv))).bind fun _ _ => pure trivial
  | map id =>
      refine look (fun h _ => ?_) fun h hh => entryTexts (hh.map hv)
      simp only [Heap.map_forget (recent_vmap.mp hv)]
  | collection c =>
      refine look (fun h _ => ?_) fun h hh => ?_
      · simp only [Heap.collection_forget (recent_vcollection.mp hv)]
      · have hcontents := hh.collection (recent_vcollection.mp hv)
        dsimp only
        split
        · next xs heq =>
            rw [heq] at hcontents
            exact (texts (recent_toList.mpr hcontents)).bind fun _ _ => pure trivial
        · next m heq =>
            rw [heq] at hcontents
            exact entryTexts hcontents
  | _ =>
      refine look (fun h hh => ?_) fun _ _ => pure trivial
      exact congrArg Pure.pure (Heap.display_forget hh hv)

end Bodies

end Oblivious
end ScriptEngine
