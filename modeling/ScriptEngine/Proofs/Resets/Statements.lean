import ScriptEngine.Proofs.Resets.Declarations
import ScriptEngine.Proofs.Resets.Members

/-!
# Statements that overlook what is old

With the statements every task of the engine overlooks what is old (`Unmindful` of each run).
-/

namespace ScriptEngine

@[simp] theorem recent_completed {t : Epoch} : Recent t (Flow.value .nil) := trivial

namespace Oblivious

variable {t : Epoch} {E : Engine} {env : Env} {v : Value}

/-! ### Blocks -/

theorem discard
    {x : Eval Flow} (hx : Oblivious t x (Recent t)) :
    Oblivious t (Eval.discard x) (Recent t) := by
  refine hx.bind fun flow hflow => ?_
  split
  · exact pure recent_completed
  · exact pure hflow

/-- Statements that complete with nil. -/
theorem complete
    {x : Eval Unit} (hx : Oblivious t x fun _ => True) :
    Oblivious t (Eval.complete x) (Recent t) := by
  exact hx.bind fun _ _ => pure recent_completed

/-- Something is bound in a scope before its statements run. -/
theorem bound
    {scope : Env} {n : Option String} {x : Unit → Eval Flow} (kind : BindingKind)
    (hscope : Recent t scope) (hv : Recent t v) (hx : Oblivious t (x ()) (Recent t)) :
    Oblivious t
      (match n with
        | some n => Eval.define scope n v kind none >>= x
        | none => Pure.pure () >>= x)
      (Recent t) := by
  cases n with
  | none =>
      exact (pure (P := fun _ => True) trivial).bind fun _ _ => hx
  | some n =>
      exact (define hscope n hv kind none).bind fun _ _ => hx

section Statements

variable [Unmindful t E]

theorem runBlock
    (body : List Stmt) (henv : Recent t env) :
    Oblivious t (Eval.runBlock E body env) (Recent t) := by
  exact (openBlock henv).bind fun scope hscope => discard (execBody hscope body)

theorem runOptional
    (body : Option (List Stmt)) (henv : Recent t env) :
    Oblivious t (Eval.runOptional E body env) (Recent t) := by
  cases body with
  | none =>
      exact pure recent_completed
  | some b =>
      exact runBlock b henv

/-! ### Assignments -/

omit [Unmindful t E] in
theorem assignName
    (name : String) (henv : Recent t env) (hv : Recent t v) :
    Oblivious t (Eval.assignName env name v) fun _ => True := by
  refine look (fun h _ => ?_) fun h _ => (checkOption hv _ _ _).bind fun _ _ => ?_
  · rw [Heap.scopes_forget, Scopes.declaredType_forget henv, Eval.bindingsInMethod_forget henv]
  refine look (fun h _ => ?_) fun h _ => (unlessFault _).bind fun _ _ => modify ?_
  · rw [Heap.scopes_forget, Scopes.assignFault?_forget henv]
  · exact .assign henv name hv

omit [Unmindful t E] in
theorem currentValue
    (name : String) (henv : Recent t env) :
    Oblivious t (Eval.currentValue env name) (Recent t) := by
  refine look (fun h _ => ?_) fun h hh => ?_
  · rw [Heap.scopes_forget, Scopes.lookup_forget henv]
  split
  · next v heq =>
      exact pure (Scopes.Renewed.lookup hh.scopes henv name v heq)
  · exact fault _

theorem assignedValue
    {current : Eval Value} (op : AssignOp) (hcurrent : Oblivious t current (Recent t))
    (hv : Recent t v) :
    Oblivious t (Eval.assignedValue E op current v) (Recent t) := by
  unfold Eval.assignedValue
  split
  · exact hcurrent.bind fun a ha => binaryOp _ ha hv
  · exact pure hv

theorem assign
    (op : AssignOp) (target value : Expr) (henv : Recent t env) :
    Oblivious t (Eval.assign E op target value env) fun _ => True := by
  refine (Unmindful.eval henv value).bind fun v hv => ?_
  split
  · refine (assignedValue op (currentValue _ henv) hv).bind fun v hv => ?_
    exact assignName _ henv hv
  · refine (Unmindful.eval henv _).bind fun o ho => ?_
    refine (assignedValue op (readMember _ ho henv) hv).bind fun v hv => ?_
    exact writeMember _ ho hv henv
  · refine (Unmindful.eval henv _).bind fun o ho => (Unmindful.eval henv _).bind fun k hk => ?_
    refine (assignedValue op (readElement ho hk) hv).bind fun v hv => ?_
    exact writeElement ho hk hv
  · exact fault _

/-! ### Loops -/

omit [Unmindful t E] in
theorem bindItem
    {key item : Value} (names : List String) (keyed : Bool) (henv : Recent t env)
    (hkey : Recent t key) (hitem : Recent t item) :
    Oblivious t (Eval.bindItem env names key item keyed) fun _ => True := by
  unfold Eval.bindItem
  split
  · exact pure trivial
  · exact define henv _ (.ite hkey hitem) _ _
  · exact (define henv _ hkey _ _).bind fun _ _ => define henv _ hitem _ _

theorem runRound
    {key item : Value} (names : List String) (filter : Option Expr) (body : List Stmt)
    (keyed : Bool) (henv : Recent t env) (hkey : Recent t key) (hitem : Recent t item) :
    Oblivious t (Eval.runRound E names filter body env key item keyed) (Recent t) := by
  refine (openBlock henv).bind fun scope hscope => ?_
  refine (bindItem names keyed hscope hkey hitem).bind fun _ _ => ?_
  split
  · exact test hscope _ (execBody hscope body) (pure recent_flow_next)
  · exact execBody hscope body

/-- What a loop ends with is what its last round ended with. -/
theorem recent_afterRound
    {flow last : Flow} (hflow : Recent t flow) (hlast : Eval.afterRound flow = some last) :
    Recent t last := by
  cases flow with
  | stop =>
      cases hlast
      exact recent_completed
  | ret v =>
      cases hlast
      exact hflow
  | value v =>
      cases hlast
  | next =>
      cases hlast

theorem runItems
    {items : List (Value × Value)} {round : Value → Value → Eval Flow} (hitems : Recent t items)
    (hround : ∀ key item, Recent t key → Recent t item →
      Oblivious t (round key item) (Recent t)) :
    Oblivious t (Eval.runItems round items) (Recent t) := by
  induction items with
  | nil =>
      exact pure recent_completed
  | cons e rest ih =>
      obtain ⟨he, hrest⟩ := recent_cons.mp hitems
      refine (hround _ _ he.1 he.2).bind fun flow hflow => ?_
      split
      · next heq => exact pure (recent_afterRound hflow heq)
      · exact ih hrest

omit [Unmindful t E] in
theorem runMessages
    {id : Nat} {round : Value → Value → Eval Flow} (hid : t.channels ≤ id)
    (hround : ∀ key item, Recent t key → Recent t item →
      Oblivious t (round key item) (Recent t)) :
    Oblivious t (Eval.runMessages E id round) (Recent t) := by
  refine iterate (S := fun _ => True) E.fuel trivial fun i _ => ?_
  refine (receiveValue hid).bind fun v hv => ?_
  split
  · exact pure (recent_completed (t := t))
  · refine (hround _ _ (recent_count i) (recent_some.mp hv)).bind fun flow hflow => ?_
    split
    · next heq => exact pure (recent_afterRound hflow heq)
    · exact pure trivial

theorem runFor
    (names : List String) (iterable : Expr) (filter : Option Expr) (body : List Stmt)
    (henv : Recent t env) :
    Oblivious t (Eval.runFor E names iterable filter body env) (Recent t) := by
  refine (Unmindful.eval henv iterable).bind fun v hv => ?_
  split
  · exact runMessages hv fun key item hkey hitem =>
      runRound names filter body false henv hkey hitem
  · refine ask (fun h hh => Eval.itemsOf_forget hh hv) (fun h hh => Eval.recent_itemsOf hh hv)
      fun items hitems => runItems hitems.1 fun key item hkey hitem => ?_
    exact runRound names filter body _ henv hkey hitem

theorem loopContinues
    (test : Option Expr) (henv : Recent t env) :
    Oblivious t (Eval.loopContinues E test env) fun _ => True := by
  cases test with
  | none =>
      exact pure trivial
  | some e =>
      exact (Unmindful.eval henv e).bind fun _ _ => pure trivial

theorem runLoop
    (test : Option Expr) (body : List Stmt) (henv : Recent t env) :
    Oblivious t (Eval.runLoop E test body env) (Recent t) := by
  refine iterate (S := fun _ => True) E.fuel trivial fun _ _ => ?_
  refine (loopContinues test henv).bind fun goesOn _ => ?_
  refine ite (fun _ => ?_) fun _ => pure (recent_completed (t := t))
  refine (openBlock henv).bind fun scope hscope => (execBody hscope body).bind fun flow hflow => ?_
  split
  · next heq => exact pure (recent_afterRound hflow heq)
  · exact pure trivial

/-! ### Exceptions -/

theorem runClause
    (c : CatchClause Stmt) (henv : Recent t env) (hv : Recent t v) :
    Oblivious t (Eval.runClause E c v env) (Recent t) := by
  refine (openBlock henv).bind fun scope hscope => ?_
  exact bound .varBinding hscope hv (discard (execBody hscope _))

theorem runGuarded
    (body : List Stmt) (catches : List (CatchClause Stmt)) (henv : Recent t env) :
    Oblivious t (Eval.runGuarded E body catches env) (Recent t) := by
  exact catching (runBlock body henv) fun c e he => runClause c henv he

omit [Unmindful t E] in
theorem withCleanup
    {x cleanup : Eval Flow} (hx : Oblivious t x (Recent t))
    (hcleanup : Oblivious t cleanup (Recent t)) :
    Oblivious t (Eval.withCleanup x cleanup) (Recent t) := by
  refine (note _).bind fun _ _ => (attempt hx).bind fun outcome houtcome => ?_
  refine (note _).bind fun _ _ => (attempt hcleanup).bind fun later hlater => ?_
  split
  · exact (note _).bind fun _ _ => ofOutcome houtcome
  · exact (note _).bind fun _ _ => (supersede outcome).bind fun _ _ => ofOutcome hlater

theorem runTry
    (body : List Stmt) (catches : List (CatchClause Stmt)) (cleanup : Option (List Stmt))
    (henv : Recent t env) :
    Oblivious t (Eval.runTry E body catches cleanup env) (Recent t) := by
  cases cleanup with
  | none =>
      exact runGuarded body catches henv
  | some c =>
      refine withCleanup (runGuarded body catches henv) ?_
      exact (openBlock henv).bind fun scope hscope => execBody hscope c

/-! ### Select and switch -/

theorem evalChannel
    (e : Expr) (henv : Recent t env) :
    Oblivious t (Eval.evalChannel E e env) (t.channels ≤ ·) := by
  refine (Unmindful.eval henv e).bind fun v hv => ?_
  split
  · exact pure hv
  · refine faultAt fun h hh => ?_
    rw [Heap.typeName_forget hh hv]

theorem evalArm
    (c : SelectCase Expr Stmt) (henv : Recent t env) :
    Oblivious t (Eval.evalArm E env c) (Recent t) := by
  unfold Eval.evalArm
  split
  · exact (evalChannel _ henv).bind fun id hid => pure hid
  · exact (evalChannel _ henv).bind fun id hid => pure hid

theorem runReceived
    (c : SelectCase Expr Stmt) (henv : Recent t env) (hv : Recent t v) :
    Oblivious t (Eval.runReceived E c v env) (Recent t) := by
  refine (openBlock henv).bind fun scope hscope => ?_
  have hbody := discard (execBody (E := E) hscope c.body)
  dsimp only
  split
  · exact (define hscope _ hv _ _).bind fun _ _ => hbody
  · exact (pure (a := ()) (P := fun _ => True) trivial).bind fun _ _ => hbody

theorem runSelect
    (cases : List (SelectCase Expr Stmt)) (henv : Recent t env) :
    Oblivious t (Eval.runSelect E cases env) (Recent t) := by
  refine (mapM fun c _ => evalArm c henv).bind fun arms harms => ?_
  refine (selectArm E.fuel harms).bind fun selected hselected => ?_
  split
  · split
    · exact runReceived _ henv hselected
    · exact pure recent_completed
  · split
    · exact runBlock _ henv
    · exact pure recent_completed
  · exact pure recent_completed

theorem matchesAny
    {subject : Value} (hsubject : Recent t subject) (henv : Recent t env) (es : List Expr) :
    Oblivious t (Eval.matchesAny E subject env es) fun _ => True := by
  induction es with
  | nil =>
      exact pure trivial
  | cons e rest ih =>
      refine (Unmindful.eval henv e).bind fun v hv => look (fun h hh => ?_) fun h _ => ?_
      · rw [Heap.equals_forget hh hv hsubject]
      · exact ite (fun _ => pure trivial) fun _ => ih

theorem casePasses
    {subject : Value} {scope : Env} (p : CasePattern Expr) (hsubject : Recent t subject)
    (henv : Recent t env) (hscope : Recent t scope) :
    Oblivious t (Eval.casePasses E p subject env scope) fun _ => True := by
  unfold Eval.casePasses
  split
  · exact matchesAny hsubject henv _
  · refine look (fun h hh => ?_) fun h _ => ite (fun _ => ?_) fun _ => pure trivial
    · rw [Heap.instanceOf_forget hh hsubject]
    · exact (define hscope _ hsubject _ _).bind fun _ _ => pure trivial

theorem runCases
    {subject : Value} (otherwise : Option (List Stmt)) (cases : List (SwitchCase Expr Stmt))
    (hsubject : Recent t subject) (henv : Recent t env) :
    Oblivious t (Eval.runCases E subject otherwise env cases) (Recent t) := by
  induction cases with
  | nil =>
      exact runOptional otherwise henv
  | cons c rest ih =>
      refine (openBlock henv).bind fun scope hscope => ?_
      refine (casePasses c.pattern hsubject henv hscope).bind fun passes _ => ?_
      exact ite (fun _ => discard (execBody hscope _)) fun _ => ih

theorem runBranches
    (otherwise : Option (List Stmt)) (branches : List (Expr × List Stmt)) (henv : Recent t env) :
    Oblivious t (Eval.runBranches E otherwise env branches) (Recent t) := by
  induction branches with
  | nil =>
      exact runOptional otherwise henv
  | cons b rest ih =>
      exact test henv b.1 (runBlock b.2 henv) ih

/-! ### Declarations and other statements -/

omit [Unmindful t E] in
theorem defineChecked
    (name : String) (kind : BindingKind) (type : Option TypeExpr) (henv : Recent t env)
    (hv : Recent t v) :
    Oblivious t (do
      Eval.checkOption v type (Eval.bindingsInMethod (← Eval.heap) env) s!"variable '{name}'"
      Eval.define env name v kind type) fun _ => True := by
  refine look (fun h _ => ?_) fun h _ => (checkOption hv _ _ _).bind fun _ _ => ?_
  · rw [Eval.bindingsInMethod_forget henv]
  · exact define henv name hv kind type

theorem declareVariable
    (kind : BindingKind) (name : String) (type : Option TypeExpr) (init : Option Expr)
    (henv : Recent t env) :
    Oblivious t (Eval.declareVariable E kind name type init env) fun _ => True := by
  unfold Eval.declareVariable
  dsimp only
  split
  · exact (Unmindful.eval henv _).bind fun v hv => defineChecked name kind _ henv hv
  · exact (pure recent_vnil).bind fun v hv => defineChecked name kind _ henv hv

end Statements

theorem declareFunction
    (d : FunctionDecl Stmt) (henv : Recent t env) :
    Oblivious t (Eval.declareFunction d env) fun _ => True := by
  have hnew (f : Function) (hf : Recent t f) : Oblivious t (Eval.change fun h =>
      (Value.function h.newNumber.1 f, h.newNumber.2)) (Recent t) :=
    change (Yields.newNumber.map (fun n => Value.function n f) fun _ _ => hf)
  exact (hnew _ henv).bind fun v hv => define henv d.name hv _ _

theorem deferCall
    {d : Deferred} (henv : Recent t env) (hd : Recent t d) :
    Oblivious t (Eval.deferCall env d) fun _ => True := by
  exact (modify (.deferCall henv hd)).bind fun _ _ => inFrame fun _ => note _

theorem importModule
    (name : String) (localName : Option String) (henv : Recent t env) :
    Oblivious t (Eval.importModule name localName env) fun _ => True := by
  exact ite (fun _ => modify (.importAs henv _ _)) fun _ => fault _

variable [Unmindful t E]

/-- One case for each form of statement. -/
theorem dispatch
    (s : Stmt) (henv : Recent t env) :
    Oblivious t (Eval.dispatch E s env) (Recent t) := by
  unfold Eval.dispatch
  split
  · exact (Unmindful.eval henv _).bind fun v hv => pure hv
  · exact complete (declareVariable _ _ _ _ henv)
  · exact complete (assign _ _ _ henv)
  · exact (Unmindful.eval henv _).bind fun v hv => pure hv
  · exact pure (recent_flow_ret.mpr recent_vnil)
  · exact complete (declareFunction _ henv)
  · exact runBranches _ _ henv
  · exact runFor _ _ _ _ henv
  · exact runLoop _ _ henv
  · exact pure recent_flow_stop
  · exact pure recent_flow_next
  · exact runTry _ _ _ henv
  · exact (Unmindful.eval henv _).bind fun v hv => throwValue hv
  · exact complete (deferCall henv henv)
  · exact complete (declareClass _ henv)
  · exact complete (declareInterface _ henv)
  · exact complete (declareEnum _ henv)
  · exact complete (declareRecord _ henv)
  · exact runSelect _ henv
  · exact (Unmindful.eval henv _).bind fun v hv => runCases _ _ hv henv
  · exact complete (importModule _ _ henv)

theorem execStmt
    (s : Stmt) (henv : Recent t env) :
    Oblivious t (Eval.execStmt E s env) (Recent t) := by
  exact mapFault (dispatch s henv)

end Oblivious

/-! ### The engine -/

/-- However deep the parts of a computation may be nested, it overlooks what is old. -/
instance Unmindful.run
    (t : Epoch) (fuel : Nat) :
    Unmindful t ⟨Eval.run fuel, fuel⟩ := by
  induction fuel with
  | zero =>
      exact ⟨fun _ _ => .giveUp, fun _ _ => .giveUp, fun _ _ _ _ => .giveUp, fun _ => .giveUp⟩
  | succ fuel ih =>
      exact
        { eval := fun henv e => .tracked (.evalExpr (E := ⟨Eval.run fuel, fuel⟩) e henv)
          exec := fun henv s => .tracked (.execStmt (E := ⟨Eval.run fuel, fuel⟩) s henv)
          call := fun typeArgs site hcallee hargs =>
            .tracked (.applyValue (E := ⟨Eval.run fuel, fuel⟩) typeArgs site hcallee hargs)
          text := fun hv => Oblivious.textOf (E := ⟨Eval.run fuel, fuel⟩) hv }

instance (t : Epoch) : Unmindful t Eval.engine := .run t Eval.fullFuel

end ScriptEngine
