import ScriptEngine.Proofs.Conduct.Courses
import ScriptEngine.Proofs.Evaluation.Arguments
import ScriptEngine.Proofs.Evaluation.Language

/-!
# Evaluations in order

Each construct of the language that plans something takes the course that it plans: a frame, a call, a
block, a try, a construction.  Everything else is composed of operations that are in order.  So
**whatever the engine runs is in order**: `planned_run`.

`fuel` is that of the engine which runs the parts.  The hypothesis on the engine is that each task is in
order; it is discharged by induction on the fuel.
-/

namespace ScriptEngine

section Parts

variable {α : Type} {fuel : Nat} {previous : Option Event} {c : Context} {h : Heap} {env : Env}

/-! ### Parts -/

/-- What performs a part is a run on the part. -/
theorem performIn_takes
    {a : Act} {given : Memory → Prop} (ha : Planned (a.perform ⟨Eval.run fuel, fuel⟩))
    (hgiven : given h.toMemory) :
    (a.perform ⟨Eval.run fuel, fuel⟩ c h).Takes previous
      (fun K => .performsIn given c.frame a K) h := by
  refine Res.Tells.imp (ha previous c h).runs fun t o ⟨horder, ended, hruns, hended⟩ => ?_
  have hperforms : Performs given c.frame a t o := ⟨fuel, c, h, ended, rfl, hgiven, hruns, hended⟩
  refine ⟨horder, ?_⟩
  cases o with
  | none =>
      exact fun K => .inr ⟨rfl, hperforms⟩
  | some o =>
      exact fun K isOver rest hrest => .inl ⟨t, rest, o, rfl, hperforms, hrest⟩

theorem perform_takes
    {a : Act} (ha : Planned (a.perform ⟨Eval.run fuel, fuel⟩)) :
    (a.perform ⟨Eval.run fuel, fuel⟩ c h).Takes previous (Plan.performs c.frame a) h := by
  exact performIn_takes ha trivial

/-- What comes after a part that has a value, if it has an outcome. -/
def Plan.valued (K : Except Signal Value → Plan) : Except Signal Flow → Plan
  | .ok (.value v) => K (.ok v)
  | .ok _ => .oneOf fun nothing : Empty => nothing.elim
  | .error s => K (.error s)

theorem Plan.Met.of_valued
    {K : Except Signal Value → Plan} {next : Except Signal Flow → Plan} {isOver : Bool}
    (hvalue : ∀ v t, (K (.ok v)).Met isOver t → (next (.ok (.value v))).Met isOver t)
    (herror : ∀ s t, (K (.error s)).Met isOver t → (next (.error s)).Met isOver t)
    (o : Except Signal Flow) (t : List Note) (ht : (Plan.valued K o).Met isOver t) :
    (next o).Met isOver t := by
  match o with
  | .ok (.value v) => exact hvalue v t ht
  | .error s => exact herror s t ht
  | .ok (.ret _) | .ok .stop | .ok .next =>
      obtain ⟨nothing, -⟩ := ht
      exact nothing.elim

/-- What performs a part that has a value is a run on the part, too. -/
theorem value_takes
    {x : Eval Value} {a : Act}
    (hperform : a.perform ⟨Eval.run fuel, fuel⟩ = do pure (.value (← x))) (hx : Planned x) :
    (x c h).Takes previous (fun K => .performs c.frame a (.valued K)) h := by
  have hpart : (a.perform ⟨Eval.run fuel, fuel⟩ c h).Takes previous (Plan.performs c.frame a) h := by
    refine perform_takes ?_
    rw [hperform]
    exact hx.bind fun v => .pure _
  rw [hperform, Eval.bind_apply] at hpart
  refine Res.Tells.imp (Res.Tells.of_map hpart) fun t o ⟨horder, htaken⟩ => ?_
  cases o with
  | none =>
      exact ⟨horder, fun K => htaken (.valued K)⟩
  | some o =>
      refine ⟨horder, fun K isOver rest hrest => htaken (.valued K) isOver rest ?_⟩
      cases o with
      | ok v =>
          exact hrest
      | error s =>
          exact hrest

variable (hE : ∀ {β : Type} (t : Task β), Planned (Eval.run fuel t))

include hE

theorem eval_takes
    (e : Expr) (env : Env) :
    (Eval.run fuel (.eval e env) c h).Takes previous
      (fun K => .performs c.frame (.eval e env) (.valued K)) h := by
  exact value_takes rfl (hE _)

theorem call_takes
    (callee : Value) (args : List Value) (typeArgs : List TypeExpr) (site : Span) :
    (Eval.run fuel (.call callee args typeArgs site) c h).Takes previous
      (fun K => .performs c.frame (.call callee args typeArgs site) (.valued K)) h := by
  exact value_takes rfl (hE _)

/-! ### Blocks -/

/-- The statements of a block after one of them are executed if it completes. -/
def Plan.afterStatement (frame : Option ScopeId) (env : Env) (rest : List Stmt)
    (o : Except Signal Flow) : Course Flow := fun next =>
  match o with
  | .ok (.value v) => block frame env rest v next
  | outcome => next outcome

theorem execList_takes
    (env : Env) (ss : List Stmt) (last : Value) :
    (Eval.execList ⟨Eval.run fuel, fuel⟩ env last ss c h).Takes previous
      (Plan.block c.frame env ss last) h := by
  induction ss generalizing last previous h with
  | nil =>
      exact .value _ h
  | cons s rest ih =>
      have hexec : (Eval.run fuel (.exec s env) c h).Takes previous
          (Plan.performs c.frame (.exec s env)) h :=
        perform_takes (a := .exec s env) (hE _)
      rw [Eval.execList]
      refine hexec.bind_outcome (D := Plan.afterStatement c.frame env rest) (fun flow h' _ => ?_) fun s K => rfl
      cases flow with
      | value v =>
          exact ih v
      | ret v =>
          exact .value _ h'
      | stop =>
          exact .value _ h'
      | next =>
          exact .value _ h'

theorem execBody_planned
    (ss : List Stmt) (env : Env) :
    Planned (Eval.execBody ⟨Eval.run fuel, fuel⟩ ss env) := by
  refine Planned.tracked (C := fun frame => Plan.block frame env ss .nil) (fun frame isOver t ht => ?_)
    fun c h => execList_takes hE env ss .nil
  rw [Except.map_id] at ht
  exact ht

theorem execBody_takes
    (ss : List Stmt) (env : Env) :
    (Eval.execBody ⟨Eval.run fuel, fuel⟩ ss env c h).Takes previous
      (Plan.performs c.frame (.block ss env)) h := by
  exact perform_takes (a := .block ss env) (execBody_planned hE ss env)

omit hE in
theorem discard_eq
    (x : Eval Flow) :
    Eval.discard x = x >>= fun flow => pure flow.discarded := by
  unfold Eval.discard
  congr 1
  funext flow
  cases flow <;> rfl

omit hE in
theorem discard_takes
    {x : Eval Flow} {C : Course Flow} (hx : (x c h).Takes previous C h) :
    (Eval.discard x c h).Takes previous (fun K => C fun o => K (o.map Flow.discarded)) h := by
  rw [discard_eq]
  exact hx.map Flow.discarded

/-- A block runs in a scope of its own. -/
theorem runBlock_takes
    (ss : List Stmt) (env : Env) :
    (Eval.runBlock ⟨Eval.run fuel, fuel⟩ ss env c h).Takes previous
      (fun K => .oneOf fun id => .performs c.frame (.block ss (id :: env)) fun o =>
        K (o.map Flow.discarded)) h := by
  exact .one h.scopes.items.size (.change_bind rfl (discard_takes (execBody_takes hE ss _)))

/-! ### Deferred calls -/

omit hE in
theorem makeDeferredCall_eq
    (E : Engine) (d : Deferred) :
    Eval.makeDeferredCall E d = E.eval d.call d.env >>= fun v =>
      if d.isMade v then pure () else E.call v [] [] d.span >>= fun _ => pure () := by
  unfold Eval.makeDeferredCall Deferred.isMade
  congr 1
  funext v
  generalize d.call = e
  cases e <;> cases v.isCallable <;> rfl

/-- What a value stands for is called that was deferred without arguments. -/
def Plan.bareCall (f : ScopeId) (v : Value) (site : Span) : Course Unit := fun next =>
  .performs (some f) (.call v [] [] site) fun
    | .ok _ => next (.ok ())
    | .error s => next (.error s)

theorem makeDeferredCall_takes
    {f : ScopeId} (hframe : c.frame = some f) (d : Deferred) :
    (Eval.makeDeferredCall ⟨Eval.run fuel, fuel⟩ d c h).Takes previous (Plan.deferral f d) h := by
  have hcall (v : Value) (h' : Heap) (previous' : Option Event) :
      ((Eval.run fuel (.call v [] [] d.span) >>= fun _ => pure () : Eval Unit) c h').Takes previous'
        (Plan.bareCall f v d.span) h' := by
    have hvalue : (Eval.run fuel (.call v [] [] d.span) c h').Takes previous' _ h' :=
      call_takes hE v [] [] d.span
    rw [hframe] at hvalue
    refine (hvalue.map fun _ => ()).imp fun K isOver t => Plan.Met.performsIn_imp ?_
    exact Plan.Met.of_valued (fun _ _ ht => ht) fun _ _ ht => ht
  have heval : (Eval.run fuel (.eval d.call d.env) c h).Takes previous _ h :=
    eval_takes hE d.call d.env
  rw [hframe] at heval
  rw [makeDeferredCall_eq]
  refine (heval.bind (D := fun v K =>
    if d.isMade v then K (.ok ()) else Plan.bareCall f v d.span K) fun v h' previous' => ?_).imp fun K isOver t => Plan.Met.performsIn_imp ?_
  · split
    · exact .value () h'
    · exact hcall v h' previous'
  · exact Plan.Met.of_valued (fun _ _ ht => ht) fun _ _ ht => ht

omit hE in
theorem Plan.Met.deferral_imp
    {f : ScopeId} {d : Deferred} {isOver : Bool} {t : List Note}
    {next next' : Except Signal Unit → Plan}
    (hnext : ∀ o t, (next o).Met isOver t → (next' o).Met isOver t)
    (ht : (Plan.deferral f d next).Met isOver t) :
    (Plan.deferral f d next').Met isOver t := by
  refine Plan.Met.performsIn_imp (fun o t ht => ?_) ht
  cases o with
  | error s =>
      exact hnext _ _ ht
  | ok flow =>
      cases flow with
      | value v =>
          dsimp only at ht ⊢
          by_cases hmade : d.isMade v
          · rw [if_pos hmade] at ht ⊢
            exact hnext _ _ ht
          · rw [if_neg hmade] at ht ⊢
            refine Plan.Met.performsIn_imp (fun o t ht => ?_) ht
            cases o with
            | ok flow =>
                exact hnext _ _ ht
            | error s =>
                exact hnext _ _ ht
      | ret v =>
          exact ht
      | stop =>
          exact ht
      | next =>
          exact ht

/-- After a deferred call the earlier ones are made; one that does not complete takes the place of the
outcome. -/
def Plan.afterDeferral (f : ScopeId) (earlier : List Deferred) (outcome : Except Signal Flow)
    (o : Except Signal Unit) : Course (Except Signal Flow) := fun next =>
  match o with
  | .ok () => .notes .cleaned (unwind f earlier outcome fun o => next (.ok o))
  | .error s => .notes .overruled <| superseded outcome <|
    unwind f earlier (.error s) fun o => next (.ok o)

theorem runDefers_takes
    {f : ScopeId} (hframe : c.frame = some f) (ds : List Deferred) (outcome : Except Signal Flow) :
    (Eval.runDefers ⟨Eval.run fuel, fuel⟩ f outcome ds c h).Takes previous
      (fun K => Plan.unwind f ds outcome fun o => K (.ok o)) h := by
  induction ds generalizing outcome previous h with
  | nil =>
      exact .value outcome h
  | cons d earlier ih =>
      let after := Plan.afterDeferral f earlier outcome
      let located (o : Except Signal Unit) : Except Signal Unit :=
        Res.faultsMapped (·.locate d.span) o
      have hcall (h' : Heap) : (Eval.mapFault (·.locate d.span)
          (Eval.makeDeferredCall ⟨Eval.run fuel, fuel⟩ d) c h').Takes (some (.ran f d))
            (fun K => Plan.deferral f d fun o => K (located o)) h' :=
        (makeDeferredCall_takes hE hframe d).mapFault _
      have hwhole : (Eval.runDefers ⟨Eval.run fuel, fuel⟩ f outcome (d :: earlier) c h).Takes previous
          (fun K => .notes (.ran f d) (Plan.deferral f d fun o => after (located o) K)) h := by
        refine .noted ((hcall _).attempt_bind (D := after) ?_) trivial fun isOver t ht => ?_
        · intro o h' previous'
          cases o with
          | ok u =>
              exact (ih outcome).noted trivial fun _ _ _ => trivial
          | error s =>
              exact .noted (.supersede_bind outcome fun _ _ => ih (.error s)) trivial
                fun _ _ _ => trivial
        · rw [Event.plan]
          refine Plan.Met.deferral_imp (fun o t ht => ?_) ht
          obtain (e | e) | ⟨⟨⟩⟩ := o
          · exact Plan.Met.notes_imp (fun _ _ => trivial) ht
          · exact Plan.Met.notes_imp (fun _ _ => trivial) ht
          · exact Plan.Met.notes_imp (fun _ _ => trivial) ht
      refine hwhole.imp fun K isOver t => Plan.Met.notes_imp fun t => Plan.Met.deferral_imp ?_
      intro o t ht
      obtain (e | e) | ⟨⟨⟩⟩ := o
      · exact ht
      · exact ht
      · exact ht

/-! ### Frames -/

omit hE in
theorem runCode_eq
    (E : Engine) (code : LambdaBody Expr Stmt) (env : Env) :
    Eval.runCode E code env = (code.act env).perform E := by
  cases code <;> rfl

theorem runCode_planned
    (code : LambdaBody Expr Stmt) (env : Env) :
    Planned (Eval.runCode ⟨Eval.run fuel, fuel⟩ code env) := by
  cases code with
  | block ss =>
      exact execBody_planned hE ss env
  | expr e =>
      exact (hE _).bind fun v => .pure _

theorem leaveFrame_takes
    (env : Env) (code : LambdaBody Expr Stmt)
    (hfollows : Note.Follows previous ⟨.entered (env.headD 0) c.frame, h.toMemory⟩) :
    (Eval.leaveFrame ⟨Eval.run fuel, fuel⟩ env code c h).Takes previous
      (fun K => .notes (.entered (env.headD 0) c.frame)
        (Plan.frame (env.headD 0) c.frame (code.act env) K)) h := by
  let f := env.headD 0
  let E : Engine := ⟨Eval.run fuel, fuel⟩
  have hcode (h' : Heap) : (Eval.runCode E code env { c with frame := some f } h').Takes
      (some (.entered f c.frame)) (Plan.performs (some f) (code.act env)) h' := by
    have hplanned := runCode_planned hE code env
    rw [runCode_eq] at hplanned ⊢
    exact perform_takes (c := { c with frame := some f }) hplanned
  have hinside (h' : Heap) : (Eval.within f (do
      let outcome ← Eval.attempt (Eval.runCode E code env)
      let defers ← Eval.takeDefers env
      Eval.note (.stopped f)
      Eval.note (.due f defers)
      Eval.runDefers E f outcome defers.reverse) c h').Takes (some (.entered f c.frame))
        (fun K => .performs (some f) (code.act env) fun outcome => .notes (.stopped f) <|
          .oneOf fun defers => .notes (.due f defers) <|
            Plan.unwind f defers.reverse outcome fun o => K (.ok o)) h' := by
    refine (hcode h').attempt_bind fun outcome h₁ _ => .change_bind rfl ?_
    have hdue (defers : List Deferred) (h₂ : Heap) :
        ((do
          Eval.note (.due f defers)
          Eval.runDefers E f outcome defers.reverse) { c with frame := some f } h₂).Takes
          (some (.stopped f)) (fun K => .notes (.due f defers) <|
            Plan.unwind f defers.reverse outcome fun o => K (.ok o)) h₂ :=
      .noted (runDefers_takes hE rfl _ outcome) trivial fun _ _ _ => trivial
    exact ((hdue (h₁.scopes.takeDeferred env).1 _).one _).noted trivial fun _ _ _ => trivial
  have hleft (outcome : Except Signal Flow) (h' : Heap) (previous' : Option Event) :
      ((do
        Eval.note (.left f c.frame)
        Eval.ofOutcome outcome) c h').Takes previous'
        (fun K => .notes (.left f c.frame) (K outcome)) h' :=
    (Res.Takes.ofOutcome outcome c _).noted trivial fun _ _ _ => trivial
  have htail := (hinside (h.note (.entered f c.frame))).bind hleft
  exact htail.noted hfollows fun isOver t ht => ⟨code.act env, ht⟩

/-! ### Calls -/

omit hE in
theorem result_takes
    (i : Invocation) (flow : Flow) :
    ((Eval.resultOf flow >>= Eval.checkResult i) c h).Takes previous (Plan.result i (.ok flow)) h := by
  have hchecked (v : Value) : (Eval.checkResult i v c h).Takes previous (fun K =>
      .either (.fails K) (K (.ok (if i.returns.any Eval.isVoid then Value.nil else v)))) h := by
    unfold Eval.checkResult
    cases i.returns with
    | none =>
        exact .right (.value v h)
    | some t =>
        dsimp only [Option.any_some]
        split
        · exact .right (.value Value.nil h)
        · exact .inquires_bind (.bind .heap fun _ => .unlessFault _) fun _ => .value v h
  cases flow with
  | value v =>
      exact hchecked v
  | ret v =>
      exact hchecked v
  | stop =>
      exact .fault _ c h
  | next =>
      exact .fault _ c h

omit hE in
theorem fitArguments_value
    (ps : List Param) (args : List Value) (c : Context) (h : Heap) :
    ∃ fitted h', Eval.fitArguments ps args c h = .value fitted h' ∧ h'.notes = h.notes ∧
      (Overload.accepts ps args.length → Eval.unfitted h' ps fitted = args) := by
  have hvalue : ∃ fitted h', Eval.fitArguments ps args c h = .value fitted h' ∧
      h'.notes = h.notes := by
    unfold Eval.fitArguments
    obtain ⟨fixed, rest⟩ := Overload.pack ps args
    cases rest with
    | none =>
        exact ⟨_, _, rfl, rfl⟩
    | some rest =>
        exact ⟨_, _, rfl, rfl⟩
  obtain ⟨fitted, h', hfit, hnotes⟩ := hvalue
  refine ⟨fitted, h', hfit, hnotes, fun haccepts => ?_⟩
  obtain ⟨fitted', h'', hfit', -, hunfitted⟩ := Eval.fitArguments_apply haccepts c h
  cases hfit.symm.trans hfit'
  exact hunfitted

omit hE in
/-- What is checked is of the type that the call returns. -/
theorem result_yields
    (i : Invocation) (flow : Flow) :
    ((Eval.resultOf flow >>= Eval.checkResult i) c h).Tells
      (fun _ o => ∀ v, o = some (.ok v) → i.Yields v) h := by
  have hchecked (v : Value) : (Eval.checkResult i v c h).Tells
      (fun _ o => ∀ v, o = some (.ok v) → i.Yields v) h := by
    unfold Eval.checkResult
    cases hreturns : i.returns with
    | none =>
        refine ⟨[], rfl, fun _ _ t ht => ?_⟩
        rw [hreturns] at ht
        cases ht
    | some t =>
        dsimp only
        split
        · next hvoid =>
            refine ⟨[], rfl, fun _ heq t' ht => ?_⟩
            cases heq
            cases hreturns.symm.trans ht
            rw [if_pos hvoid]
        · next hvoid =>
            have hinquires : Eval.Inquires (Eval.check v t i.bindings s!"return value of {i.name}") :=
              .bind .heap fun _ => .unlessFault _
            rw [Eval.bind_apply]
            obtain ⟨⟨⟩, hpass⟩ | ⟨cause, hfault⟩ := hinquires c h
            · rw [hpass]
              refine ⟨[], rfl, fun _ heq t' ht => ?_⟩
              cases heq
              cases hreturns.symm.trans ht
              rw [if_neg hvoid]
              exact (Eval.check_obeys hpass).2
            · rw [hfault]
              exact .fault cause c h (by rintro _ _ _ ⟨⟩)
  have hfault (cause : Cause) : ((Eval.fault cause : Eval Value) c h).Tells
      (fun _ o => ∀ v, o = some (.ok v) → i.Yields v) h :=
    .fault cause c h (by rintro _ _ _ ⟨⟩)
  cases flow with
  | value v =>
      exact hchecked v
  | ret v =>
      exact hchecked v
  | stop =>
      exact hfault _
  | next =>
      exact hfault _

/-- The body of a call runs, and what it comes to is of the type that the call returns. -/
theorem runFrame_takes
    (i : Invocation) (args : List Value) :
    (Eval.runFrame ⟨Eval.run fuel, fuel⟩ i args c h).Takes (some (.called i args))
        (Plan.body i) h ∧
      (Eval.runFrame ⟨Eval.run fuel, fuel⟩ i args c h).Tells
        (fun _ o => ∀ v, o = some (.ok v) → i.Yields v) h := by
  obtain ⟨fitted, h₁, hfit, hnotes, hunfitted⟩ := fitArguments_value i.params args c h
  obtain ⟨sc, cause, -, hfault⟩ | ⟨hsuits, hrun⟩ :=
    Eval.runFrame_cases (E := ⟨Eval.run fuel, fuel⟩) hfit
  · rw [hfault]
    have hsame : (Eval.withScope h₁ sc).notes = h.notes := hnotes
    exact ⟨.left (.one cause (.silently hsame (.fault cause c _))),
      .silently hsame (.fault cause c _ (by rintro _ _ _ ⟨⟩))⟩
  · rw [hrun]
    let f := h₁.scopes.items.size
    let h₂ := Eval.withScope h₁ (Eval.callScope h₁ i fitted)
    have hsame : h₂.notes = h.notes := hnotes
    have hscope : h₂.scopes.scope f = Eval.callScope h₁ i fitted :=
      (Scopes.scope_add _ _ f).trans (if_pos rfl)
    have hbegins : i.Begins args f h₂.toMemory :=
      ⟨fitted, hunfitted, by rw [hscope, Eval.callScope], hsuits⟩
    have hfollows : Note.Follows (some (.called i args)) ⟨.entered f c.frame, h₂.toMemory⟩ :=
      .inr ⟨i, args, rfl, hbegins⟩
    have hframe := leaveFrame_takes hE (f :: i.closure) i.body hfollows
    have hbody : (Eval.runBody ⟨Eval.run fuel, fuel⟩ i (f :: i.closure) c h₂).Takes
        (some (.called i args)) (fun K => .notes (.entered f c.frame) <|
          Plan.frame f c.frame (i.body.act (f :: i.closure)) fun o => Plan.result i o K) h₂ :=
      hframe.bind_outcome (fun flow _ _ => result_takes i flow) fun _ _ => rfl
    have hyields : (Eval.runBody ⟨Eval.run fuel, fuel⟩ i (f :: i.closure) c h₂).Tells
        (fun _ o => ∀ v, o = some (.ok v) → i.Yields v) h₂ := by
      unfold Eval.runBody
      rw [Eval.bind_apply]
      refine Res.Tells.bind hframe (by rintro _ _ _ ⟨⟩) (by rintro _ _ _ _ ⟨⟩) ?_
      exact fun _ flow _ _ => result_yields i flow
    exact ⟨.silently hsame (.right (.one c.frame (.one f hbody))), .silently hsame hyields⟩

/-- A call is answered as its body has ended, or refused. -/
theorem invoke_takes
    (i : Invocation) (args : List Value) (site : Span) :
    (Eval.invoke ⟨Eval.run fuel, fuel⟩ i args site c h).Takes previous
      (fun K => .notes (.called i args) (Plan.call i K)) h := by
  let x : Eval Value :=
    Eval.mapFault (·.leave i.name site) (Eval.runFrame ⟨Eval.run fuel, fuel⟩ i args)
  have hframe (h' : Heap) :=
    runFrame_takes hE i args (c := { c with depth := c.depth + 1 }) (h := h')
  have hadmitted (h' : Heap) : (Eval.admitted x c h').Takes (some (.called i args)) (fun K =>
      .either (.oneOf fun limit => .notes (.refused limit) (.faulted (.callDepth limit) K))
        (.oneOf fun site => Plan.body i fun o => K (Res.faultsMapped (·.leave i.name site) o))) h' := by
    unfold Eval.admitted
    split
    · have hrefused : ((do Eval.note (.refused c.limit); Eval.fault (.callDepth c.limit) :
          Eval Value) c h').Takes (some (.called i args)) (fun K =>
            .notes (.refused c.limit) (.faulted (.callDepth c.limit) K)) h' :=
        (Res.Takes.fault _ c _).noted trivial fun _ _ _ => trivial
      exact (hrefused.one c.limit).left
    · have hbody := (hframe h').1.mapFault (·.leave i.name site)
      exact (hbody.one site).right
  have hyields (h' : Heap) : (Eval.admitted x c h').Tells
      (fun _ o => ∀ o', o = some o' → ∀ v, o' = .ok v → i.Yields v) h' := by
    unfold Eval.admitted
    split
    · have hnotes : (h'.note (.refused c.limit)).notes =
          [⟨.refused c.limit, h'.toMemory⟩].reverse ++ h'.notes :=
        Heap.notes_note h' _
      refine .after hnotes (.fault _ c _ fun _ _ o heq v hv => ?_)
      cases heq
      cases hv
    · refine (hframe h').2.mapFault (by rintro _ _ _ ⟨⟩) fun t o ho o' heq v hv => ?_
      cases heq
      obtain (e | e) | v' := o
      · cases hv
      · cases hv
      · cases hv
        exact ho v rfl
  have hanswered (o : Except Signal Value) (ho : ∀ v, o = .ok v → i.Yields v) (h' : Heap)
      (previous' : Option Event) : ((do
        Eval.note (.answered i o)
        Eval.ofOutcome o) c h').Takes previous' (fun K => .notes (.answered i o) (K o)) h' := by
    refine .noted (.ofOutcome o c _) ?_ fun _ _ _ => trivial
    cases o with
    | ok v =>
        exact ho v rfl
    | error s =>
        trivial
  exact ((hadmitted _).attempt_bind_of (hyields _) hanswered).noted trivial fun isOver t ht => ht

/-! ### Exceptions -/

/-- The body of a clause runs in a scope that binds what the clause takes. -/
theorem runClause_takes
    (cl : CatchClause Stmt) (e : Exception) (env : Env) :
    (Eval.runClause ⟨Eval.run fuel, fuel⟩ cl e.value env c h).Takes previous
      (Plan.handler c.frame env e cl) h := by
  let id := h.scopes.items.size
  have hbody (h' : Heap) (hvars : (h'.scopes.scope id).vars = cl.bound e.value) :
      (Eval.discard (Eval.execBody ⟨Eval.run fuel, fuel⟩ cl.body (id :: env)) c h').Takes previous
        (fun K => .performsIn (fun m => (m.scopes.scope id).vars = cl.bound e.value) c.frame
          (.block cl.body (id :: env)) fun o => K (o.map Flow.discarded)) h' :=
    discard_takes (performIn_takes (a := .block cl.body (id :: env))
      (execBody_planned hE cl.body _) hvars)
  let sc : Scope := ⟨∅, h.scopes.importsOf env, none⟩
  have hopen : Eval.openBlock env c h = .value (id :: env) (Eval.withScope h sc) := rfl
  have hvars (sc : Scope) : ((Eval.withScope h sc).scopes.scope id).vars = sc.vars :=
    congrArg Scope.vars ((Scopes.scope_add _ _ id).trans (if_pos rfl))
  have hnotes (sc : Scope) : (Eval.withScope h sc).notes = h.notes := rfl
  unfold Eval.runClause
  rw [Eval.bind_apply, hopen, Res.bind]
  cases hbinding : cl.binding with
  | none =>
      refine .silently (hnotes sc) (.one id (hbody (Eval.withScope h sc) ?_))
      rw [hvars, CatchClause.bound, hbinding]
  | some n =>
      let sc' := Eval.withBindings sc [(n, ⟨e.value, .varBinding, none⟩)]
      dsimp only
      rw [Eval.bind_apply, Eval.define_apply, Res.bind]
      refine .silently (hnotes sc') (.one id (hbody (Eval.withScope h sc') ?_))
      rw [hvars, CatchClause.bound, hbinding]
      rfl

/-- The body of a try runs, and the clause that takes what it throws. -/
theorem runGuarded_takes
    (body : List Stmt) (clauses : List (CatchClause Stmt)) (env : Env) :
    (Eval.runGuarded ⟨Eval.run fuel, fuel⟩ body clauses env c h).Takes previous
      (Plan.guarded c.frame env body clauses) h := by
  unfold Eval.runGuarded Eval.catching
  refine .noted (.attempt_bind (D := Plan.taken c.frame env) (runBlock_takes hE body env)
    fun o h' _ => ?_) trivial fun _ _ _ => trivial
  match o with
  | .ok flow => exact .noted (.ofOutcome (.ok flow) c _) trivial fun _ _ _ => trivial
  | .error (.fault f) =>
      exact .noted (.ofOutcome (.error (.fault f)) c _) trivial fun _ _ _ => trivial
  | .error (.thrown e) =>
      dsimp only
      rw [Eval.heap_bind_apply]
      cases clauses.find? (·.takes (h'.instanceOf e.value)) with
      | some cl =>
          exact .left (.one cl (.noted (runClause_takes hE cl e env) trivial
            fun isOver t ht => ⟨c.frame, env, ht⟩))
      | none =>
          exact .right (.noted (.raise _ _) trivial fun _ _ _ => trivial)

omit hE in
theorem withCleanup_takes
    {x cleanup : Eval Flow} {C : Course Flow} {body : List Stmt}
    (hx : ∀ h previous, (x c h).Takes previous C h)
    (hcleanup : ∀ h previous, (cleanup c h).Takes previous
      (fun K => .oneOf fun id => .performs c.frame (.block body (id :: env)) K) h) :
    (Eval.withCleanup x cleanup c h).Takes previous (fun K => .notes .shielded <| C fun o =>
      .notes .cleaning (Plan.cleanup c.frame env body o K)) h := by
  have hlater (outcome later : Except Signal Flow) (h' : Heap) (previous' : Option Event) :
      ((do
        Eval.note .overruled
        Eval.supersede outcome
        Eval.ofOutcome later) c h').Takes previous'
        (fun K => .notes .overruled <| Plan.superseded outcome (K later)) h' :=
    .noted (.supersede_bind outcome fun h'' _ => .ofOutcome later c h'') trivial
      fun _ _ _ => trivial
  unfold Eval.withCleanup
  refine .noted (.attempt_bind (D := fun outcome K => .notes .cleaning <|
    Plan.cleanup c.frame env body outcome K) (hx _ _) fun outcome h₁ _ => ?_) trivial
    fun _ _ _ => trivial
  refine .noted (C := Plan.cleanup c.frame env body outcome) (.attempt_bind
    (D := Plan.resumed outcome) (hcleanup _ _) fun o h₂ _ => ?_) trivial fun isOver t ht =>
      ⟨c.frame, env, body, outcome, ht⟩
  match o with
  | .ok (.value v) => exact .noted (.ofOutcome outcome c _) trivial fun _ _ _ => trivial
  | .ok (.ret v) => exact hlater outcome _ _ _
  | .ok .stop => exact hlater outcome _ _ _
  | .ok .next => exact hlater outcome _ _ _
  | .error s => exact hlater outcome _ _ _

/-- A try runs, and then its cleanup. -/
theorem runTry_takes
    (body : List Stmt) (clauses : List (CatchClause Stmt)) (last : Option (List Stmt)) (env : Env) :
    (Eval.runTry ⟨Eval.run fuel, fuel⟩ body clauses last env c h).Takes previous
      (Plan.attempt c.frame env body clauses last) h := by
  cases last with
  | none =>
      exact runGuarded_takes hE body clauses env
  | some last =>
      refine withCleanup_takes (fun _ _ => runGuarded_takes hE body clauses env) fun h' _ => ?_
      exact .one h'.scopes.items.size (.change_bind rfl (execBody_takes hE last _))

/-! ### Statements -/

theorem throw_takes
    (e : Expr) (span : Span) (env : Env) :
    ((do Eval.throwValue ⟨← Eval.run fuel (.eval e env), some span⟩ : Eval Flow) c h).Takes previous
      (Plan.throw c.frame env e span) h := by
  have hthrown (v : Value) (h' : Heap) (previous' : Option Event) :
      ((Eval.throwValue ⟨v, some span⟩ : Eval Flow) c h').Takes previous' (fun K =>
        .notes (.threw ⟨v, some span⟩) (K (.error (.thrown ⟨v, some span⟩)))) h' :=
    .noted (.raise _ _) trivial fun _ _ _ => trivial
  refine ((eval_takes hE e env).bind hthrown).imp fun K isOver t => Plan.Met.performsIn_imp ?_
  exact Plan.Met.of_valued (fun _ _ ht => ht) fun _ _ ht => ht

omit hE in
theorem defer_takes
    (call : Expr) (span : Span) (env : Env) :
    (Eval.complete (Eval.deferCall env ⟨call, env, span⟩) c h).Takes
      (some (.began c.frame (.exec (.defer call span) env))) (Plan.defer c.frame env call span) h := by
  let h' : Heap := { h with scopes := h.scopes.deferCall env ⟨call, env, span⟩ }
  have hnotes : h'.notes = h.notes := rfl
  exact .silently hnotes (.noted (.value _ _) rfl fun _ _ _ => trivial)

omit hE in
/-- A statement that plans something is in order if it takes what it plans. -/
theorem course_planned
    {E : Engine} {s : Stmt} {C : Option ScopeId → Course Flow}
    (hcourse : ∀ frame, s.course frame env = some (C frame))
    (hs : ∀ c h, (Eval.dispatch E s env c h).Takes (some (.began c.frame (.exec s env)))
      (C c.frame) h) :
    Planned (Eval.tracked (.exec s env) id (Eval.execStmt E s env)) := by
  refine Planned.tracked (C := fun frame K => C frame fun o =>
    K (Res.faultsMapped (·.locate s.span) o)) (fun frame isOver t ht => ?_) fun c h => (hs c h).mapFault _
  rw [Except.map_id] at ht
  rw [Event.plan, hcourse]
  exact ht

/-! ### Constructions -/

theorem initFieldList_takes
    (o : Instance) (bs : Bindings) (env : Env) (fs : List FieldDef) :
    (Eval.initFieldList ⟨Eval.run fuel, fuel⟩ o bs env fs c h).Takes previous
      (Plan.fields c.frame env fs) h := by
  induction fs generalizing previous h with
  | nil =>
      exact .value () h
  | cons f rest ih =>
      have hstored (v : Value) (h' : Heap) (previous' : Option Event) : ((do
          Eval.checkOption v f.type bs s!"field '{f.name}' of {o.cls.name}"
          Eval.modify (·.fillField o f.name env v)
          Eval.initFieldList ⟨Eval.run fuel, fuel⟩ o bs env rest) c h').Takes previous'
          (fun K => .either (.fails K) (Plan.fields c.frame env rest K)) h' := by
        refine .inquires_bind ?_ fun _ => .modify_bind (Calm.fillField h' o f.name env v).notes ih
        cases f.type with
        | none =>
            exact .pure ()
        | some t =>
            exact .bind .heap fun _ => .unlessFault _
      unfold Eval.initFieldList
      refine .modify_bind (Calm.beginField h f.name env).notes ?_
      cases hinit : f.init with
      | none =>
          simp only [Plan.fields, hinit]
          exact hstored .nil _ previous
      | some e =>
          simp only [Plan.fields, hinit]
          refine ((eval_takes hE e env).bind hstored).imp fun K isOver t => Plan.Met.performsIn_imp ?_
          exact Plan.Met.of_valued (fun _ _ ht => ht) fun _ _ ht => ht

/-- The fields of further classes are filled if those of one have been. -/
def Plan.afterLayer (frame : Option ScopeId) (rest : List ClassDef) (o : Except Signal Unit) :
    Course Unit := fun next =>
  match o with
  | .ok () => layers frame rest next
  | .error s => next (.error s)

theorem fillFields_takes
    (o : Instance) (cs : List ClassDef) :
    (Eval.fillFields ⟨Eval.run fuel, fuel⟩ o cs c h).Takes previous (Plan.layers c.frame cs) h := by
  induction cs generalizing previous h with
  | nil =>
      exact .value () h
  | cons d rest ih =>
      unfold Eval.fillFields
      cases hempty : d.own.fields.isEmpty with
      | true =>
          have hnil : d.own.fields = [] := List.isEmpty_iff.mp hempty
          refine .one 0 ?_
          simp only [hnil, Plan.fields]
          exact ih
      | false =>
          refine .one h.scopes.items.size (.change_bind rfl ?_)
          exact (initFieldList_takes hE o _ _ d.own.fields).bind_outcome
            (D := Plan.afterLayer c.frame rest) (fun _ _ _ => ih) fun _ _ => rfl

/-- A method is called on an instance, or it fails. -/
theorem runMethod_takes
    (o : Instance) (m : Method) (args : List Value) (site : Span) :
    (Eval.runMethod ⟨Eval.run fuel, fuel⟩ o m args site c h).Takes previous (Plan.method o m) h := by
  have hrun : (∃ cause, Eval.runMethod ⟨Eval.run fuel, fuel⟩ o m args site c h =
        (Eval.fault cause : Eval Value) c h) ∨
      ∃ i : Invocation, (i.params = m.params ∧ i.body = .block (m.body.getD []) ∧
          i.closure = m.closure ∧ ∃ d, i.receiver = some ⟨o, d⟩) ∧
        Eval.runMethod ⟨Eval.run fuel, fuel⟩ o m args site c h =
          Eval.invoke ⟨Eval.run fuel, fuel⟩ i args site c h := by
    unfold Eval.runMethod Eval.bodyOf
    cases m.body with
    | none =>
        exact .inl ⟨_, rfl⟩
    | some body =>
        cases Overload.accepts m.params args.length with
        | false =>
            exact .inl ⟨_, rfl⟩
        | true =>
            exact .inr ⟨_, ⟨rfl, rfl, rfl, _, rfl⟩, rfl⟩
  obtain ⟨cause, hfault⟩ | ⟨i, hi, hinvoke⟩ := hrun
  · rw [hfault]
    exact .left (.one cause (.fault cause c h))
  · rw [hinvoke]
    exact .right (.one ⟨(i, args), hi⟩ (invoke_takes hE i args site))

/-- The constructor is called when the fields have been filled. -/
def Plan.afterLayers (o : Instance) (constructor : Option Method) (outcome : Except Signal Unit) :
    Course Unit := fun next =>
  match outcome with
  | .ok () =>
    match constructor with
    | some m => method o m fun outcome => next (outcome.map fun _ => ())
    | none => next (.ok ())
  | .error s => next (.error s)

theorem build_takes
    (o : Instance) (constructor : Option Method) (args : List Value) (site : Span) :
    (Eval.build ⟨Eval.run fuel, fuel⟩ o constructor args site c h).Takes previous
      (Plan.build c.frame o constructor) h := by
  have hbuilt (x : Heap) : (x.markBuilt o).notes = x.notes := rfl
  refine (fillFields_takes hE o o.cls.lineage.reverse).bind_outcome
    (D := Plan.afterLayers o constructor) (fun _ h' previous' => ?_) fun _ _ => rfl
  cases constructor with
  | none =>
      exact .silently (hbuilt h') (.value () _)
  | some m =>
      have htold : (h'.tell o .entered).notes = h'.notes := rfl
      refine .modify_bind htold ?_
      refine (runMethod_takes hE o m args site).bind_outcome (D := fun outcome K =>
        K (outcome.map fun _ => ())) (fun _ h'' _ => ?_) fun _ _ => rfl
      exact .silently (hbuilt h'') (.value () _)

theorem construct_planned
    (o : Instance) (constructor : Option Method) (args : List Value) (site : Span) :
    Planned (Eval.construct ⟨Eval.run fuel, fuel⟩ o constructor args site) := by
  intro previous c h
  have hended (outcome : Except Signal Unit) (h' : Heap) (previous' : Option Event) :
      ((do
        Eval.modify (·.endConstruction o)
        Eval.ofOutcome outcome) c h').Takes previous' (fun K => K outcome) h' :=
    .modify_bind rfl (.ofOutcome outcome c _)
  have hwhole : (Eval.construct ⟨Eval.run fuel, fuel⟩ o constructor args site c h).Takes previous
      (fun K => .notes (.building o constructor) (Plan.build c.frame o constructor K)) h :=
    .noted ((build_takes hE o constructor args site).attempt_bind hended) trivial
      fun isOver t ht => ⟨c.frame, ht⟩
  exact .of_takes hwhole

/-! ### Composition -/

omit hE in
/-- A change of the heap of which nothing is noted. -/
theorem Planned.of_calm
    {f : Heap → α × Heap} (hf : ∀ h, Calm h (f h).2) :
    Planned (Eval.change f) := by
  exact .change fun h => (hf h).notes

/-- The places in which code may stand. -/
def Role.IsCode : Role → Prop
  | .expression | .statement _ => True
  | .call | .frame _ => False

theorem planned_composed
    {r : Role} {x : Eval α} (hx : Composed ⟨Eval.run fuel, fuel⟩ r x) (hr : r.IsCode) :
    Planned x := by
  generalize hengine : (⟨Eval.run fuel, fuel⟩ : Engine) = E at hx
  induction hx with
  | pure a => exact .pure a
  | bind _ _ ihx ihf => exact (ihx hr).bind fun a => ihf a hr
  | plain _ ih => exact ih trivial
  | thrown e => exact .throwValue e
  | fault cause => exact .fault cause
  | giveUp => exact .giveUp
  | change hf => exact .of_calm hf
  | await hstep => exact .await fun h a h' hs => (hstep h a h' hs).notes
  | yield => exact .yield
  | join id => exact .join id
  | spawn body env => exact .change fun h => rfl
  | called _ _ =>
      subst hengine
      exact fun previous c h => Res.Orderly.of_takes (invoke_takes hE _ _ _)
  | built _ _ =>
      subst hengine
      exact construct_planned hE _ _ _ _
  | mapFault _ _ ih => exact (ih hr).mapFault _
  | diverting _ _ ihx ihhandler => exact (ihx hr).diverting fun e => ihhandler e hr
  | afterwards _ hf ih => exact (ih hr).afterwards fun h => (hf h).notes
  | block _ _ ih => exact .bind (.change fun h => rfl) fun scope => ih scope trivial
  | body _ _ =>
      subst hengine
      exact execBody_planned hE _ _
  | openFrame _ _ => exact hr.elim
  | openFields _ ih => exact .bind (.change fun h => rfl) fun scope => ih scope trivial
  | leave _ _ _ _ => exact hr.elim
  | exec s _ =>
      subst hengine
      exact hE _
  | eval e env =>
      subst hengine
      exact hE _
  | call callee args typeArgs site =>
      subst hengine
      exact hE _
  | text v =>
      subst hengine
      exact hE _

theorem exec_planned
    (s : Stmt) (env : Env) :
    Planned (Eval.tracked (.exec s env) id (Eval.execStmt ⟨Eval.run fuel, fuel⟩ s env)) := by
  have hplain (hs : s.IsPlain) : Planned (Eval.execStmt ⟨Eval.run fuel, fuel⟩ s env) :=
    .mapFault _ (planned_composed hE (.dispatch hs (List.mem_singleton_self env)) trivial)
  cases s with
  | defer call span =>
      exact course_planned (fun _ => rfl) fun _ _ => defer_takes call span env
  | throw e span =>
      exact course_planned (fun _ => rfl) fun _ _ => throw_takes hE e span env
  | attempt body clauses last span =>
      exact course_planned (fun _ => rfl) fun _ _ => runTry_takes hE body clauses last env
  | _ =>
      exact .tracked_plain (fun _ => rfl) (hplain trivial)

theorem step_planned
    (t : Task α) :
    Planned (Eval.step ⟨Eval.run fuel, fuel⟩ t) := by
  cases t with
  | eval e env =>
      exact .tracked_plain (fun _ => rfl)
        (planned_composed hE (r := .expression) (.evalExpr e env) trivial)
  | exec s env =>
      exact exec_planned hE s env
  | call callee args typeArgs site =>
      exact .tracked_plain (fun _ => rfl)
        (planned_composed hE (r := .expression) (.applyValue callee args typeArgs site) trivial)
  | text v =>
      exact planned_composed hE (r := .expression) (.textOf v) trivial

end Parts

/-- **Whatever the engine runs is in order.** -/
theorem planned_run
    (fuel : Nat) {α : Type} (t : Task α) :
    Planned (Eval.run fuel t) := by
  induction fuel generalizing α with
  | zero =>
      exact .giveUp
  | succ fuel ih =>
      exact step_planned (fun t => ih t) t

end ScriptEngine
