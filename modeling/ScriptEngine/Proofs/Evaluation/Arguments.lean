import ScriptEngine.Proofs.Evaluation.Calls
import ScriptEngine.Proofs.Evaluation.Checks
import ScriptEngine.Proofs.Evaluation.Notes
import ScriptEngine.Proofs.Stores.Scoping

/-!
# Arguments

A call has a candidate selected by the number of its arguments, fits the arguments to the parameters
of the candidate, and binds the parameters in the scope of its frame.  Nothing is lost on the way.

**Fitting.**  There are as many fitted values as parameters, and the arguments can be had back from
them: the last value of a variadic candidate is an array of those that have no parameter of their own.

**Binding.**  The scope of the frame is new and has a binding for each parameter, after those of the
names that the body sees besides.  The body runs in it unless a parameter has a type that its argument
is not of (`runFrame_cases`).
-/

namespace ScriptEngine

namespace Assoc

variable {α : Type}

/-- Of the pairs for a name the last one counts. -/
theorem find?_ofList
    (earlier later : List (String × α)) {name : String} (a : α)
    (hlast : ∀ e ∈ later, e.1 ≠ name) :
    (ofList (earlier ++ (name, a) :: later)).find? name = some a := by
  have hkeep (m : Assoc α) (hm : m.find? name = some a) :
      (later.foldl (fun m e => m.insert e.1 e.2) m).find? name = some a := by
    induction later generalizing m with
    | nil =>
        exact hm
    | cons e later ih =>
        refine ih (fun e' he' => hlast e' (List.mem_cons_of_mem _ he')) _ ?_
        rw [find?_insert, if_neg (hlast e List.mem_cons_self)]
        exact hm
  rw [ofList, List.foldl_append, List.foldl_cons]
  refine hkeep _ ?_
  rw [find?_insert, if_pos rfl]

end Assoc

/-- The bindings of the names that a body sees beside its parameters. -/
def Invocation.boundLocals (i : Invocation) : List (String × Binding) :=
  i.locals.map fun l => (l.1, ⟨l.2, .finalBinding, none⟩)

/-- A value is of the type of a parameter; of one that takes several, each element is. -/
def Param.Takes (p : Param) (bs : Bindings) (m : Memory) (v : Value) : Prop :=
  match p.variadic, v with
  | true, .array id => ∀ w ∈ m.heap.array id, ObeysOption w p.type bs
  | true, _ => True
  | false, v => ObeysOption v p.type bs

/-- What parameters are bound to is of their types. -/
def Invocation.Suits (i : Invocation) (ps : List Param) (vs : List Value) (m : Memory) : Prop :=
  ∀ e ∈ ps.zip vs, e.1.Takes i.bindings m e.2

namespace Scopes

/-- The scope that was added last is changed before it is added. -/
theorem update_add
    (s : Scopes) (sc : Scope) (f : Scope → Scope) :
    (s.add sc).2.update s.items.size f = (s.add (f sc)).2 := by
  simp only [add, update, mk.injEq]
  refine Array.ext_getElem? fun j => ?_
  rw [Array.getElem?_modify]
  split
  · next hj =>
      rw [← hj, Array.getElem?_push_size, Array.getElem?_push_size, Option.map_some]
  · next hj =>
      rw [Array.getElem?_push, Array.getElem?_push, if_neg (Ne.symm hj), if_neg (Ne.symm hj)]

end Scopes

namespace Eval

/-! ### Fitting -/

/-- The arguments that were fitted to parameters. -/
def unfitted (h : Heap) (ps : List Param) (fitted : List Value) : List Value :=
  if Overload.isVariadic ps then
    fitted.dropLast ++
      match fitted.getLast? with
      | some (.array id) => (h.array id).toList
      | _ => []
  else fitted

/-- As many values are fitted as there are parameters, and no argument is lost. -/
theorem fitArguments_apply
    {ps : List Param} {args : List Value} (haccepts : Overload.accepts ps args.length = true)
    (ctx : Context) (h : Heap) :
    ∃ fitted h', fitArguments ps args ctx h = .value fitted h' ∧ fitted.length = ps.length ∧
      unfitted h' ps fitted = args := by
  rw [Overload.accepts, Overload.fixedArity] at haccepts
  rw [fitArguments, Overload.pack]
  split at haccepts
  · next hvariadic =>
      rw [if_pos hvariadic]
      refine ⟨_, _, rfl, ?_, ?_⟩
      · have hsome : ps ≠ [] := by
          rintro rfl
          cases hvariadic
        have hpos := List.length_pos_iff.mpr hsome
        rw [decide_eq_true_eq] at haccepts
        simp only [List.length_append, List.length_take, List.length_singleton]
        omega
      · rw [unfitted, if_pos hvariadic]
        simp [Heap.array]
  · next hfixed =>
      rw [if_neg hfixed]
      refine ⟨args, h, rfl, beq_iff_eq.mp haccepts, ?_⟩
      rw [unfitted, if_neg hfixed]

/-! ### Binding -/

/-- What comes after the arguments of a call are bound. -/
def runBody (E : Engine) (i : Invocation) (env : Env) : Eval Value := do
  let flow ← leaveFrame E env i.body
  let v ← resultOf flow
  checkResult i v

/-- The bindings of parameters with what is fitted to them. -/
def boundParams (ps : List Param) (fitted : List Value) : List (String × Binding) :=
  (ps.zip fitted).map fun e => (e.1.name, ⟨e.2, .varBinding, none⟩)

/-- A scope with further bindings. -/
def withBindings (sc : Scope) (entries : List (String × Binding)) : Scope :=
  { sc with vars := entries.foldl (fun m e => m.insert e.1 e.2) sc.vars }

/-- A heap with one more scope. -/
def withScope (h : Heap) (sc : Scope) : Heap := { h with scopes := (h.scopes.add sc).2 }

section Binding

variable {i : Invocation} {ctx : Context} {h : Heap} {sc : Scope} {env : Env}

theorem define_apply
    (name : String) (v : Value) (kind : BindingKind) :
    define (h.scopes.items.size :: env) name v kind none ctx (withScope h sc) =
      .value () (withScope h (withBindings sc [(name, ⟨v, kind, none⟩)])) := by
  rw [define, modify_apply]
  congr 1
  simp only [withScope, Scopes.define, Scopes.update_add]
  rfl

theorem defineLocals_apply
    (locals : List (String × Value)) :
    (locals.forM fun l => define (h.scopes.items.size :: env) l.1 l.2 .finalBinding none) ctx
        (withScope h sc) =
      .value () (withScope h (withBindings sc
        (locals.map fun l => (l.1, ⟨l.2, .finalBinding, none⟩)))) := by
  induction locals generalizing sc with
  | nil =>
      rfl
  | cons l locals ih =>
      rw [List.forM, bind_apply, define_apply]
      exact ih

/-- Fails unless an argument is of the type of its parameter. -/
def acceptArgument (i : Invocation) (p : Param) (v : Value) : Eval Unit :=
  match p.type with
  | some t => requireArgument i p v t
  | none => pure ()

theorem Inquires.acceptArgument
    (i : Invocation) (p : Param) (v : Value) :
    Inquires (acceptArgument i p v) := by
  have hcheck (what : String) (v : Value) (t : TypeExpr) : Inquires (check v t i.bindings what) :=
    .bind .heap fun h => .unlessFault _
  have hchecks (what : String) (vs : List Value) (t : TypeExpr) :
      Inquires (vs.forM fun v => check v t i.bindings what) := by
    induction vs with
    | nil =>
        exact .pure ()
    | cons v vs ih =>
        exact .bind (hcheck what v t) fun _ => ih
  unfold Eval.acceptArgument requireArgument
  split
  · dsimp only
    split
    · exact .bind .heap fun h => hchecks _ _ _
    · exact .pure ()
    · exact hcheck _ _ _
  · exact .pure ()

/-- What passes a check obeys its type. -/
theorem check_obeys
    {v : Value} {t : TypeExpr} {bs : Bindings} {what : String} {h' : Heap}
    (hpass : check v t bs what ctx h = .value () h') :
    h' = h ∧ Obeys v t bs := by
  rw [check, heap_bind_apply] at hpass
  cases hfault : h.checkFault? v t bs what with
  | none =>
      rw [hfault] at hpass
      cases hpass
      exact ⟨rfl, .of_checkFault? hfault⟩
  | some cause =>
      rw [hfault] at hpass
      cases hpass

/-- An argument that is accepted is of the type of its parameter. -/
theorem acceptArgument_takes
    {p : Param} {v : Value} (hpass : acceptArgument i p v ctx h = .value () h) :
    p.Takes i.bindings h.toMemory v := by
  have hchecks (what : String) (t : TypeExpr) (vs : List Value)
      (hpass : (vs.forM fun v => check v t i.bindings what) ctx h = .value () h) :
      ∀ v ∈ vs, Obeys v t i.bindings := by
    induction vs with
    | nil =>
        simp
    | cons v vs ih =>
        rw [List.forM, bind_apply] at hpass
        cases hfirst : check v t i.bindings what ctx h with
        | value u h' =>
            obtain ⟨rfl, hv⟩ := check_obeys hfirst
            rw [hfirst] at hpass
            exact List.forall_mem_cons.mpr ⟨hv, ih hpass⟩
        | raise s h' =>
            rw [hfirst] at hpass
            cases hpass
        | blocked b h' resume =>
            rw [hfirst] at hpass
            cases hpass
        | outOfFuel =>
            rw [hfirst] at hpass
            cases hpass
  unfold acceptArgument requireArgument at hpass
  unfold Param.Takes
  cases htype : p.type with
  | none =>
      split <;> simp [ObeysOption]
  | some t =>
      rw [htype] at hpass
      dsimp only at hpass
      have hoption {v : Value} (hv : Obeys v t i.bindings) : ObeysOption v (some t) i.bindings := by
        intro t' ht'
        cases ht'
        exact hv
      split
      · next hvariadic =>
          rw [hvariadic] at hpass
          intro w hw
          exact hoption (hchecks _ t _ hpass w (Array.mem_toList_iff.mpr hw))
      · trivial
      · next hfixed =>
          rw [hfixed] at hpass
          exact hoption (check_obeys hpass).2

theorem bindArguments_cons
    (i : Invocation) (p : Param) (ps : List Param) (v : Value) (vs : List Value) :
    bindArguments i env (p :: ps) (v :: vs) =
      acceptArgument i p v >>= fun _ => define env p.name v .varBinding none >>= fun _ =>
        bindArguments i env ps vs := by
  rw [bindArguments, acceptArgument]
  cases p.type with
  | none =>
      rfl
  | some t =>
      rfl

/-- A parameter has a type that its argument is not of. -/
def Refuses (i : Invocation) (ps : List Param) (vs : List Value) (ctx : Context) (h : Heap)
    (cause : Cause) : Prop :=
  ∃ p v, (p, v) ∈ ps.zip vs ∧ acceptArgument i p v ctx h = (Eval.fault cause : Eval Unit) ctx h

/-- All parameters are bound to what suits them, unless one refuses its argument. -/
theorem bindArguments_cases
    (i : Invocation) (ps : List Param) (vs : List Value) (ctx : Context) (h : Heap) (sc : Scope)
    (env : Env) :
    (∃ sc' cause, Refuses i ps vs ctx (withScope h sc') cause ∧
      bindArguments i (h.scopes.items.size :: env) ps vs ctx (withScope h sc) =
        (Eval.fault cause : Eval Unit) ctx (withScope h sc')) ∨
    i.Suits ps vs h.toMemory ∧
      bindArguments i (h.scopes.items.size :: env) ps vs ctx (withScope h sc) =
        .value () (withScope h (withBindings sc (boundParams ps vs))) := by
  induction ps generalizing vs sc with
  | nil =>
      exact .inr ⟨by simp [Invocation.Suits], rfl⟩
  | cons p ps ih =>
      cases vs with
      | nil =>
          exact .inr ⟨by simp [Invocation.Suits], rfl⟩
      | cons v vs =>
          rw [bindArguments_cons, bind_apply]
          obtain ⟨⟨⟩, hpass⟩ | ⟨cause, hfault⟩ :=
            Inquires.acceptArgument i p v ctx (withScope h sc)
          · have htakes : p.Takes i.bindings (withScope h sc).toMemory v :=
              acceptArgument_takes hpass
            rw [hpass, Res.bind, bind_apply, define_apply, Res.bind]
            refine (ih vs _).imp ?_ fun hrest =>
              ⟨List.forall_mem_cons.mpr ⟨htakes, hrest.1⟩, hrest.2⟩
            rintro ⟨sc', cause, ⟨q, w, hqw, hfault⟩, hbind⟩
            exact ⟨sc', cause, ⟨q, w, List.mem_cons_of_mem _ hqw, hfault⟩, hbind⟩
          · rw [hfault]
            exact .inl ⟨sc, cause, ⟨p, v, List.mem_cons_self, hfault⟩, rfl⟩

/-- The scope of a call in which all of its names are bound. -/
def callScope (h : Heap) (i : Invocation) (fitted : List Value) : Scope :=
  ⟨Assoc.ofList (i.boundLocals ++ boundParams i.params fitted), h.scopes.importsOf i.closure,
    some ⟨i.name, i.receiver, []⟩⟩

/-- A call refuses one of its arguments, or they suit it and its body runs with everything bound. -/
theorem runFrame_cases
    {E : Engine} {args fitted : List Value} {h₁ : Heap}
    (hfit : fitArguments i.params args ctx h = .value fitted h₁) :
    (∃ sc cause, Refuses i i.params fitted ctx (withScope h₁ sc) cause ∧
      runFrame E i args ctx h = (Eval.fault cause : Eval Value) ctx (withScope h₁ sc)) ∨
    i.Suits i.params fitted h₁.toMemory ∧
      runFrame E i args ctx h =
        runBody E i (h₁.scopes.items.size :: i.closure) ctx
          (withScope h₁ (callScope h₁ i fitted)) := by
  let sc : Scope := ⟨∅, h₁.scopes.importsOf i.closure, some ⟨i.name, i.receiver, []⟩⟩
  let sc' := withBindings sc i.boundLocals
  let env := h₁.scopes.items.size :: i.closure
  have hframe : runFrame E i args ctx h =
      (bindArguments i env i.params fitted >>= fun _ => runBody E i env) ctx
        (withScope h₁ sc') := by
    have hparts : runFrame E i args = fitArguments i.params args >>= fun args =>
        openFrame i.closure i.name i.receiver >>= fun env =>
          (i.locals.forM fun l => define env l.1 l.2 .finalBinding none) >>= fun _ =>
            bindArguments i env i.params args >>= fun _ => runBody E i env :=
      rfl
    have hopen : openFrame i.closure i.name i.receiver ctx h₁ = .value env (withScope h₁ sc) :=
      rfl
    rw [hparts, bind_apply, hfit, Res.bind, bind_apply, hopen, Res.bind, bind_apply,
      defineLocals_apply]
    rfl
  have hscope : withBindings sc' (boundParams i.params fitted) = callScope h₁ i fitted := by
    rw [callScope, Assoc.ofList, List.foldl_append]
    rfl
  rw [hframe, bind_apply]
  obtain ⟨sc'', cause, hrefuses, hbind⟩ | ⟨hsuits, hbind⟩ :=
    bindArguments_cases i i.params fitted ctx h₁ sc' i.closure
  · left
    rw [hbind]
    exact ⟨sc'', cause, hrefuses, rfl⟩
  · right
    rw [hbind, hscope]
    exact ⟨hsuits, rfl⟩

/-- In the scope of a call each parameter stands for what is fitted to it, unless a later parameter
has its name. -/
theorem find?_callScope
    {fitted : List Value} {k : Nat} {p : Param} {v : Value} (hp : i.params[k]? = some p)
    (hv : fitted[k]? = some v) (hlast : ∀ q ∈ i.params.drop (k + 1), q.name ≠ p.name) :
    (callScope h i fitted).vars.find? p.name = some ⟨v, .varBinding, none⟩ := by
  have hzip : (i.params.zip fitted)[k]? = some (p, v) := by
    rw [List.getElem?_zip_eq_some]
    exact ⟨hp, hv⟩
  obtain ⟨hk, hpv⟩ := List.getElem?_eq_some_iff.mp hzip
  have hsplit : i.params.zip fitted =
      (i.params.zip fitted).take k ++ (p, v) :: (i.params.zip fitted).drop (k + 1) := by
    rw [← hpv, ← List.drop_eq_getElem_cons hk, List.take_append_drop]
  rw [callScope, boundParams, hsplit, List.map_append, List.map_cons, ← List.append_assoc]
  refine Assoc.find?_ofList _ _ _ fun e he => ?_
  obtain ⟨⟨q, w⟩, hqw, rfl⟩ := List.mem_map.mp he
  rw [List.zip, List.drop_zipWith] at hqw
  exact hlast q (List.of_mem_zip hqw).1

/-- A call of a body runs it with each parameter bound to what is fitted to it, and to the last such
value where parameters have the same name; or the type of a parameter refuses the argument. -/
def BindsAll (E : Engine) (i : Invocation) (args fitted : List Value) (ctx : Context)
    (h h₁ : Heap) : Prop :=
  (∃ sc cause, Refuses i i.params fitted ctx (withScope h₁ sc) cause ∧
    runFrame E i args ctx h = (Eval.fault cause : Eval Value) ctx (withScope h₁ sc)) ∨
  ∃ sc, runFrame E i args ctx h =
      runBody E i (h₁.scopes.items.size :: i.closure) ctx (withScope h₁ sc) ∧
    sc.vars = Assoc.ofList (i.boundLocals ++ boundParams i.params fitted) ∧
    ∀ k p v, i.params[k]? = some p → fitted[k]? = some v →
      (∀ q ∈ i.params.drop (k + 1), q.name ≠ p.name) →
      sc.vars.find? p.name = some ⟨v, .varBinding, none⟩

end Binding

/-- A candidate is selected just if some candidate takes the number of arguments, and then it takes it.
There is a value for each parameter of it, the arguments can be had back from the values, and a call
that refuses none of them binds each parameter. -/
theorem arguments_bound
    {α : Type} (params : α → List Param) (candidates : List α) (args : List Value) :
    ((∃ c, Overload.select params candidates args.length = some c) ↔
      ∃ c ∈ candidates, Overload.accepts (params c) args.length = true) ∧
    ∀ c, Overload.select params candidates args.length = some c →
      c ∈ candidates ∧ Overload.accepts (params c) args.length = true ∧
      ∀ ctx h, ∃ fitted h₁, fitArguments (params c) args ctx h = .value fitted h₁ ∧
        fitted.length = (params c).length ∧ unfitted h₁ (params c) fitted = args ∧
        ∀ E i, i.params = params c → BindsAll E i args fitted ctx h h₁ := by
  refine ⟨⟨?_, ?_⟩, fun c hselect => ?_⟩
  · rintro ⟨c, hselect⟩
    exact ⟨c, Overload.mem_of_select hselect, Overload.accepts_of_select hselect⟩
  · rintro ⟨c, hc, haccepts⟩
    exact Overload.exists_select hc haccepts
  · have haccepts := Overload.accepts_of_select hselect
    refine ⟨Overload.mem_of_select hselect, haccepts, fun ctx h => ?_⟩
    obtain ⟨fitted, h₁, hfit, hlength, hunfitted⟩ := fitArguments_apply haccepts ctx h
    refine ⟨fitted, h₁, hfit, hlength, hunfitted, fun E i hparams => ?_⟩
    rw [← hparams] at hfit
    refine (runFrame_cases hfit).imp_right fun ⟨_, hrun⟩ => ?_
    exact ⟨_, hrun, rfl, fun k p v hp hv hlast => find?_callScope hp hv hlast⟩

/-- Of two candidates the one that takes more gets the last two of three arguments as an array. -/
theorem arguments_bound_rest :
    let first : Param := ⟨"first", none, false, default⟩
    let rest : Param := ⟨"rest", none, true, default⟩
    let args : List Value := [.int 1, .int 2, .int 3]
    (∃ c, Overload.select id [[first], [first, rest]] args.length = some c) ∧
    ∃ fitted h₁, fitArguments [first, rest] args ⟨0, 0, none⟩ Heap.empty = .value fitted h₁ ∧
      fitted.length = 2 ∧ unfitted h₁ [first, rest] fitted = args := by
  intro first rest args
  obtain ⟨hselected, hfits⟩ := arguments_bound id [[first], [first, rest]] args
  refine ⟨hselected.mpr ⟨[first, rest], List.mem_cons_of_mem _ List.mem_cons_self, rfl⟩, ?_⟩
  obtain ⟨-, -, hfit⟩ := hfits [first, rest] rfl
  obtain ⟨fitted, h₁, hvalue, hlength, hunfitted, -⟩ := hfit ⟨0, 0, none⟩ Heap.empty
  exact ⟨fitted, h₁, hvalue, hlength, hunfitted⟩

/-! ### Calls of code that only asks -/

/-- A computation comes to a value and leaves a memory behind, whatever has been noted before. -/
def Gives {α : Type} (x : Eval α) (ctx : Context) (m : Memory) (a : α) (m' : Memory) : Prop :=
  ∀ past, ∃ past', x ctx ⟨m, past⟩ = .value a ⟨m', past'⟩

namespace Gives

variable {α β : Type} {x : Eval α} {ctx : Context} {m m' m'' : Memory} {a : α}

theorem pure (a : α) (ctx : Context) (m : Memory) : Gives (Pure.pure a) ctx m a m := by
  exact fun past => ⟨past, rfl⟩

theorem note (e : Event) (ctx : Context) (m : Memory) : Gives (note e) ctx m () m := by
  exact fun past => ⟨past.after ⟨e, m⟩, rfl⟩

theorem bind
    {f : α → Eval β} {b : β} (hx : Gives x ctx m a m') (hf : Gives (f a) ctx m' b m'') :
    Gives (x >>= f) ctx m b m'' := by
  intro past
  obtain ⟨past', hx⟩ := hx past
  obtain ⟨past'', hf⟩ := hf past'
  exact ⟨past'', by rw [bind_apply, hx, Res.bind, hf]⟩

theorem attempt
    (hx : Gives x ctx m a m') :
    Gives (attempt x) ctx m (.ok a) m' := by
  intro past
  obtain ⟨past', hx⟩ := hx past
  exact ⟨past', by rw [attempt_apply, hx, Res.attempt]⟩

theorem mapFault
    (f : Fault → Fault) (hx : Gives x ctx m a m') :
    Gives (mapFault f x) ctx m a m' := by
  intro past
  obtain ⟨past', hx⟩ := hx past
  exact ⟨past', by rw [Eval.mapFault, hx, Res.mapFault]⟩

theorem tracked
    {flow : α → Flow} (act : Act) (hx : Gives x ctx m a m') :
    Gives (tracked act flow x) ctx m a m' := by
  have hframe : Gives currentFrame ctx m ctx.frame m := fun past => ⟨past, rfl⟩
  refine hframe.bind ((note _ _ _).bind (hx.attempt.bind ((note _ _ _).bind ?_)))
  exact pure a ctx m'

theorem deeper
    {x : Eval Value} {v : Value} (i : Invocation) (args : List Value)
    (hdepth : ctx.depth < ctx.limit)
    (hx : Gives x { ctx with depth := ctx.depth + 1 } m v m') :
    Gives (deeper i args x) ctx m v m' := by
  have hadmitted : Gives (admitted x) ctx m v m' := by
    intro past
    obtain ⟨past', hx⟩ := hx past
    exact ⟨past', by rw [admitted, if_neg (Nat.not_lt.mpr hdepth), hx]⟩
  exact (note _ _ _).bind (hadmitted.attempt.bind ((note _ _ _).bind (pure v ctx m')))

end Gives

/-- Two heaps differ in nothing but the scopes and what is noted. -/
def SameStores (h h' : Heap) : Prop :=
  ∃ scopes past, h' = { h with scopes := scopes, past := past }

theorem SameStores.trans
    {h h' h'' : Heap} (h₁ : SameStores h h') (h₂ : SameStores h' h'') :
    SameStores h h'' := by
  obtain ⟨_, _, rfl⟩ := h₁
  obtain ⟨scopes, past, rfl⟩ := h₂
  exact ⟨scopes, past, rfl⟩

/-- What changes nothing but the scopes leaves the same stores. -/
theorem Gives.sameStores
    {α : Type} {x : Eval α} {ctx : Context} {h : Heap} {a : α} {scopes : Scopes}
    (hx : Gives x ctx h.toMemory a { h.toMemory with scopes := scopes }) :
    ∃ h', x ctx h = .value a h' ∧ SameStores h h' := by
  obtain ⟨past, hx⟩ := hx h.past
  exact ⟨_, hx, scopes, past, rfl⟩

/-- Code that changes nothing and defers nothing leaves its frame. -/
theorem leaveFrame_gives
    {E : Engine} {env : Env} {code : LambdaBody Expr Stmt} {flow : Flow} {m : Memory}
    (hcode : ∀ ctx, Gives (runCode E code env) ctx m flow m)
    (htake : (m.scopes.takeDeferred env).1 = []) (ctx : Context) :
    Gives (leaveFrame E env code) ctx m flow
      { m with scopes := (m.scopes.takeDeferred env).2 } := by
  let frame := env.headD 0
  let m' : Memory := { m with scopes := (m.scopes.takeDeferred env).2 }
  have htaken (ctx : Context) : Gives (takeDefers env) ctx m [] m' := by
    intro past
    refine ⟨past, ?_⟩
    rw [takeDefers, change_apply, htake]
  have hinside (ctx : Context) : Gives (do
      let outcome ← attempt (runCode E code env)
      let defers ← takeDefers env
      note (.stopped frame)
      note (.due frame defers)
      runDefers E frame outcome defers.reverse) ctx m (.ok flow) m' :=
    (hcode ctx).attempt.bind ((htaken ctx).bind ((Gives.note _ _ _).bind
      ((Gives.note _ _ _).bind (.pure _ _ _))))
  have hframe : Gives currentFrame ctx m ctx.frame m := fun past => ⟨past, rfl⟩
  refine hframe.bind ((Gives.note _ _ _).bind ?_)
  exact .bind (hinside { ctx with frame := some frame })
    ((Gives.note _ _ _).bind (.pure flow ctx m'))

/-- A call of code that asks for nothing but what its names stand for comes to its value, and changes
nothing. -/
theorem invoke_gives
    {E : Engine} {v : Value} {ctx : Context} (i : Invocation) (args : List Value) (flow : Flow)
    (site : Span) (h : Heap) (hfixed : Overload.isVariadic i.params = false)
    (htypes : ∀ p ∈ i.params, p.type = none) (hreturns : i.returns = none)
    (hdepth : ctx.depth < ctx.limit)
    (hcode : ∀ id ctx m, (m.scopes.scope id).vars =
        Assoc.ofList (i.boundLocals ++ boundParams i.params args) →
      Gives (runCode E i.body (id :: i.closure)) ctx m flow m)
    (hflow : resultOf flow = pure v) :
    ∃ scopes, Gives (invoke E i args site) ctx h.toMemory v { h.toMemory with scopes := scopes } := by
  let ctx₁ : Context := { ctx with depth := ctx.depth + 1 }
  let id := h.scopes.items.size
  let m := (withScope h (callScope h i args)).toMemory
  have hscope : m.scopes.scope id = callScope h i args :=
    (Scopes.scope_add _ _ id).trans (if_pos rfl)
  have hframe : (callScope h i args).frame = some ⟨i.name, i.receiver, []⟩ := rfl
  have htake : (m.scopes.takeDeferred (id :: i.closure)).1 = [] := by
    simp only [Scopes.takeDeferred, hscope, hframe]
  have hvars : (m.scopes.scope id).vars =
      Assoc.ofList (i.boundLocals ++ boundParams i.params args) := by
    rw [hscope, callScope]
  have hresult : checkResult i v = pure v := by
    unfold checkResult
    rw [hreturns]
  have hbody : Gives (runBody E i (id :: i.closure)) ctx₁ m v
      { m with scopes := (m.scopes.takeDeferred (id :: i.closure)).2 } := by
    refine (leaveFrame_gives (fun ctx => hcode id ctx m hvars) htake ctx₁).bind ?_
    rw [hflow, pure_bind, hresult]
    exact .pure _ _ _
  have hrun : Gives (runFrame E i args) ctx₁ h.toMemory v
      { h.toMemory with scopes := (m.scopes.takeDeferred (id :: i.closure)).2 } := by
    intro past
    have hfit : fitArguments i.params args ctx₁ ⟨h.toMemory, past⟩ =
        .value args ⟨h.toMemory, past⟩ := by
      rw [fitArguments, Overload.pack, hfixed]
      rfl
    obtain ⟨sc, cause, ⟨p, w, hpw, hrefused⟩, -⟩ | ⟨-, heq⟩ := runFrame_cases (E := E) hfit
    · rw [acceptArgument, htypes p (List.of_mem_zip hpw).1] at hrefused
      cases hrefused
    · rw [heq]
      exact hbody past
  exact ⟨_, .deeper i args hdepth (.mapFault _ hrun)⟩

end Eval
end ScriptEngine
