import ScriptEngine.Proofs.Stores.Declarations

/-!
# Statements that keep the stores

With the statements every task of the engine keeps the stores (`Careful` of each run), and so does
the work of every thread.
-/

namespace ScriptEngine
namespace Keeps

variable {S : World} {E : Engine}

/-! ### Blocks -/

theorem discard
    {x : Eval Flow} (hx : Keeps S x) :
    Keeps S (Eval.discard x) := by
  refine hx.andThen fun flow => ?_
  split
  · exact pure (by simp) trivial
  · exact pure (Knows.self S _) trivial

/-- Statements that complete with nil. -/
theorem complete
    {x : Eval Unit} (hx : Keeps S x) :
    Keeps S (Eval.complete x) := by
  exact hx.skip fun _ => pure (by simp) trivial

section Statements

variable [Careful E]

theorem runBlock
    (body : List Stmt) (env : Env) :
    Keeps S (Eval.runBlock E body env) := by
  exact (openBlock env).skip fun scope => discard (execBody body scope)

theorem runOptional
    (body : Option (List Stmt)) (env : Env) :
    Keeps S (Eval.runOptional E body env) := by
  cases body with
  | none =>
      exact pure (by simp) trivial
  | some b =>
      exact runBlock b env

/-! ### Assignments -/

theorem assignedValue
    {current : Eval Value} {v : Value} (op : AssignOp) (hcurrent : Keeps S current)
    (hv : Knows S v) :
    Keeps S (Eval.assignedValue E op current v) := by
  unfold Eval.assignedValue
  split
  · exact hcurrent.andThen fun a => binaryOp _ (Knows.self S a) (hv.more _)
  · exact pure hv trivial

theorem assign
    (op : AssignOp) (target value : Expr) (env : Env) :
    Keeps S (Eval.assign E op target value env) := by
  refine (Careful.eval S value env).andThen fun v => ?_
  have hv := Knows.self S v
  split
  · refine (assignedValue op (currentValue env _) hv).andThen fun v => ?_
    exact assignName env _ (Knows.self _ v)
  · refine (Careful.eval _ _ env).andThen fun o => ?_
    have ho := Knows.self (S ∪ carried v) o
    refine (assignedValue op (readMember _ env ho) (hv.more _)).andThen fun v => ?_
    exact writeMember _ env (ho.more _) (Knows.self _ v)
  · refine (Careful.eval _ _ env).andThen fun o => (Careful.eval _ _ env).andThen fun key => ?_
    refine (assignedValue op (readElement o key) ((hv.more _).more _)).andThen fun v => ?_
    exact writeElement (by simp) (by simp) (Knows.self _ v)
  · exact fault _

/-! ### Loops -/

theorem bindItem
    {key item : Value} (env : Env) (names : List String) (keyed : Bool) (hkey : Knows S key)
    (hitem : Knows S item) :
    Keeps S (Eval.bindItem env names key item keyed) := by
  unfold Eval.bindItem
  split
  · exact pure (knows_unit _) trivial
  · refine defineUntyped env _ .varBinding ?_
    split
    · exact hkey
    · exact hitem
  · refine (defineUntyped env _ .varBinding hkey).skip fun _ => ?_
    exact defineUntyped env _ .varBinding hitem

theorem runRound
    {key item : Value} (names : List String) (filter : Option Expr) (body : List Stmt) (env : Env)
    (keyed : Bool) (hkey : Knows S key) (hitem : Knows S item) :
    Keeps S (Eval.runRound E names filter body env key item keyed) := by
  refine (openBlock env).skip fun scope => (bindItem scope names keyed hkey hitem).skip fun _ => ?_
  split
  · exact test _ scope (execBody body scope) (pure (by simp) trivial)
  · exact execBody body scope

/-- What a loop ends with is what its last round ended with. -/
theorem knows_afterRound
    {flow last : Flow} (hflow : Knows S flow) (hlast : Eval.afterRound flow = some last) :
    Knows S last := by
  cases flow with
  | stop =>
      cases hlast
      exact knows_vnil
  | ret v =>
      cases hlast
      exact hflow
  | value v =>
      cases hlast
  | next =>
      cases hlast

theorem runItems
    {items : List (Value × Value)} {round : Value → Value → Eval Flow} (hitems : Knows S items)
    (hround : ∀ key item, Knows S key → Knows S item → Keeps S (round key item)) :
    Keeps S (Eval.runItems round items) := by
  induction items with
  | nil =>
      exact pure (by simp) trivial
  | cons e rest ih =>
      obtain ⟨he, hrest⟩ := knows_cons.mp hitems
      obtain ⟨hkey, hitem⟩ := knows_pair.mp he
      refine (hround _ _ hkey hitem).andThen fun flow => ?_
      split
      · next heq => exact pure (knows_afterRound (Knows.self S flow) heq) trivial
      · exact (ih hrest).more _

omit [Careful E] in
theorem runMessages
    {round : Value → Value → Eval Flow} (id : Nat)
    (hround : ∀ T key item, S ⊆ T → Knows T key → Knows T item → Keeps T (round key item)) :
    Keeps S (Eval.runMessages E id round) := by
  refine iterate E.fuel 0 fun i => (receiveValue id).andThen fun v => ?_
  split
  · exact pure (by simp) trivial
  · next v =>
      have hitem : Knows (S ∪ carried (some v)) v := Knows.self S (some v)
      refine (hround _ _ v Set.subset_union_left (Builtin.knows_count i) hitem).andThen fun flow => ?_
      split
      · next heq => exact pure (knows_afterRound (Knows.self _ flow) heq) trivial
      · exact pure (by simp) trivial

theorem runFor
    (names : List String) (iterable : Expr) (filter : Option Expr) (body : List Stmt) (env : Env) :
    Keeps S (Eval.runFor E names iterable filter body env) := by
  refine (Careful.eval S iterable env).skip fun v => ?_
  split
  · exact runMessages _ fun T key item _ hkey hitem =>
      runRound names filter body env false hkey hitem
  · refine query (fun w h _ hh => Eval.knows_itemsOf hh _) fun items => ?_
    refine runItems (knows_pair.mp (Knows.self S items)).1 fun key item hkey hitem => ?_
    exact runRound names filter body env _ hkey hitem

theorem loopContinues
    (test : Option Expr) (env : Env) :
    Keeps S (Eval.loopContinues E test env) := by
  cases test with
  | none =>
      exact pure (knows_bool _) trivial
  | some e =>
      exact (Careful.eval S e env).skip fun v => pure (knows_bool _) trivial

theorem runLoop
    (test : Option Expr) (body : List Stmt) (env : Env) :
    Keeps S (Eval.runLoop E test body env) := by
  refine iterate E.fuel () fun _ => (loopContinues test env).skip fun goesOn => ?_
  refine ite (fun _ => ?_) fun _ => pure (by simp) trivial
  refine (openBlock env).skip fun scope => (execBody body scope).andThen fun flow => ?_
  split
  · next heq => exact pure (knows_afterRound (Knows.self S flow) heq) trivial
  · exact pure (by simp) trivial

/-! ### Exceptions -/

theorem runClause
    {v : Value} (c : CatchClause Stmt) (env : Env) (hv : Knows S v) :
    Keeps S (Eval.runClause E c v env) := by
  refine (openBlock env).skip fun scope => ?_
  dsimp only
  split
  · refine (defineUntyped scope _ .varBinding hv).skip fun _ => discard (execBody _ scope)
  · exact (pure (knows_unit ()) trivial).skip fun _ => discard (execBody _ scope)

theorem runGuarded
    (body : List Stmt) (catches : List (CatchClause Stmt)) (env : Env) :
    Keeps S (Eval.runGuarded E body catches env) := by
  exact catching (runBlock body env) fun c e => runClause c env (Knows.self S e)

theorem withCleanup
    {x cleanup : Eval Flow} (hx : Keeps S x) (hcleanup : Keeps S cleanup) :
    Keeps S (Eval.withCleanup x cleanup) := by
  refine (note _).skip fun _ => (attempt hx).plain.andThen fun outcome => (note _).skip fun _ => ?_
  refine ((attempt hcleanup).plain.more _).andThen fun later => ?_
  split
  · refine (note _).skip fun _ => ?_
    exact ofOutcome ((Knows.self S outcome).more _) fun _ _ => trivial
  · refine (note _).skip fun _ => (supersede outcome).skip fun _ => ?_
    exact ofOutcome (Knows.self _ later) fun _ _ => trivial

theorem runTry
    (body : List Stmt) (catches : List (CatchClause Stmt)) (cleanup : Option (List Stmt)) (env : Env) :
    Keeps S (Eval.runTry E body catches cleanup env) := by
  cases cleanup with
  | none =>
      exact runGuarded body catches env
  | some c =>
      refine withCleanup (runGuarded body catches env) ?_
      exact (openBlock env).skip fun scope => execBody c scope

/-! ### Select and switch -/

theorem evalChannel
    (e : Expr) (env : Env) :
    Keeps S (Eval.evalChannel E e env) := by
  refine (Careful.eval S e env).skip fun v => ?_
  split
  · exact pure (knows_nat _) trivial
  · exact look.skip fun h => fault _

theorem evalArm
    (env : Env) (c : SelectCase Expr Stmt) :
    Keeps S (Eval.evalArm E env c) := by
  unfold Eval.evalArm
  split
  · exact (evalChannel _ env).skip fun id => pure (Plain.knows _ _) trivial
  · exact (evalChannel _ env).skip fun id => pure (Plain.knows _ _) trivial

theorem runReceived
    {v : Value} (c : SelectCase Expr Stmt) (env : Env) (hv : Knows S v) :
    Keeps S (Eval.runReceived E c v env) := by
  refine (openBlock env).skip fun scope => ?_
  dsimp only
  split
  · refine (defineUntyped scope _ .letBinding hv).skip fun _ => discard (execBody _ scope)
  · exact (pure (knows_unit ()) trivial).skip fun _ => discard (execBody _ scope)

theorem runSelect
    (cases : List (SelectCase Expr Stmt)) (env : Env) :
    Keeps S (Eval.runSelect E cases env) := by
  refine (each fun c _ => evalArm env c).skip fun arms => ?_
  refine (selectArm E.fuel arms).andThen fun selected => ?_
  split
  · next i v =>
      split
      · exact runReceived _ env (knows_received.mp (Knows.self S _))
      · exact pure (by simp) trivial
  · split
    · exact runBlock _ env
    · exact pure (by simp) trivial
  · exact pure (by simp) trivial

theorem matchesAny
    (subject : Value) (env : Env) (es : List Expr) :
    Keeps S (Eval.matchesAny E subject env es) := by
  induction es with
  | nil =>
      exact pure (knows_bool _) trivial
  | cons e rest ih =>
      refine (Careful.eval S e env).skip fun v => look.skip fun h => ite (fun _ => ?_) fun _ => ih
      exact pure (knows_bool _) trivial

theorem casePasses
    {subject : Value} (p : CasePattern Expr) (env scope : Env) (hsubject : Knows S subject) :
    Keeps S (Eval.casePasses E p subject env scope) := by
  unfold Eval.casePasses
  split
  · exact matchesAny subject env _
  · refine look.skip fun h => ite (fun _ => ?_) fun _ => pure (knows_bool _) trivial
    refine (defineUntyped scope _ .letBinding hsubject).skip fun _ => pure (knows_bool _) trivial

theorem runCases
    {subject : Value} (otherwise : Option (List Stmt)) (env : Env)
    (cases : List (SwitchCase Expr Stmt)) (hsubject : Knows S subject) :
    Keeps S (Eval.runCases E subject otherwise env cases) := by
  induction cases with
  | nil =>
      exact runOptional otherwise env
  | cons c rest ih =>
      refine (openBlock env).skip fun scope => (casePasses _ env scope hsubject).skip fun passes => ?_
      exact ite (fun _ => discard (execBody _ scope)) fun _ => ih

theorem runBranches
    (otherwise : Option (List Stmt)) (env : Env) (branches : List (Expr × List Stmt)) :
    Keeps S (Eval.runBranches E otherwise env branches) := by
  induction branches with
  | nil =>
      exact runOptional otherwise env
  | cons b rest ih =>
      exact test b.1 env (runBlock b.2 env) ih

/-! ### Declarations and other statements -/

/-- A variable obeys its type as the code that declares it reads it. -/
theorem defineChecked
    {v : Value} (env : Env) (name : String) (kind : BindingKind) (type : Option TypeExpr)
    (hv : Knows S v) :
    Keeps S (do
      Eval.checkOption v type (Eval.bindingsInMethod (← Eval.heap) env) s!"variable '{name}'"
      Eval.define env name v kind type) := by
  refine look.andThen fun h => (checkOption _ _ _ _).bind fun _ hobeys => more ?_ _
  refine define env name kind (hv.more _) fun w hS t ht => ⟨_, ?_, hobeys t ht⟩
  exact meaning_bindingsInMethod ((Knows.self S h).mono hS) env

theorem declareVariable
    (kind : BindingKind) (name : String) (type : Option TypeExpr) (init : Option Expr) (env : Env) :
    Keeps S (Eval.declareVariable E kind name type init env) := by
  unfold Eval.declareVariable
  dsimp only
  split
  · exact (Careful.eval S _ env).andThen fun v => defineChecked env name kind _ (Knows.self S v)
  · exact defineChecked env name kind _ knows_vnil

end Statements

theorem declareFunction
    (d : FunctionDecl Stmt) (env : Env) :
    Keeps S (Eval.declareFunction d env) := by
  have hnew (f : Function) : Keeps S (Eval.change fun h =>
      (Value.function h.newNumber.1 f, h.newNumber.2)) :=
    quietly fun w h _ _ => ⟨.newNumber w h, knows_vfunction, trivial⟩
  exact (hnew _).andThen fun v => defineUntyped env d.name .varBinding (Knows.self S v)

theorem deferCall
    (env : Env) (d : Deferred) :
    Keeps S (Eval.deferCall env d) := by
  refine (modifyQuietly fun w h _ _ => .deferCall w h env d).skip fun _ => ?_
  exact currentFrame.skip fun frame => note _

theorem importModule
    (name : String) (localName : Option String) (env : Env) :
    Keeps S (Eval.importModule name localName env) := by
  unfold Eval.importModule
  exact ite (fun _ => modifyQuietly fun w h _ _ => .importAs w h env _ name) fun _ => fault _

variable [Careful E]

/-- One case for each form of statement. -/
theorem dispatch
    (s : Stmt) (env : Env) :
    Keeps S (Eval.dispatch E s env) := by
  unfold Eval.dispatch
  split
  · exact (Careful.eval S _ env).andThen fun v => pure (Knows.self S v) trivial
  · exact complete (declareVariable _ _ _ _ env)
  · exact complete (assign _ _ _ env)
  · exact (Careful.eval S _ env).andThen fun v => pure (Knows.self S v) trivial
  · exact pure (by simp) trivial
  · exact complete (declareFunction _ env)
  · exact runBranches _ env _
  · exact runFor _ _ _ _ env
  · exact runLoop _ _ env
  · exact pure (by simp) trivial
  · exact pure (by simp) trivial
  · exact runTry _ _ _ env
  · exact (Careful.eval S _ env).andThen fun v => throwValue (Knows.self S v)
  · exact complete (deferCall env _)
  · exact complete (declareClass _ env)
  · exact complete (declareInterface _ env)
  · exact complete (declareEnum _ env)
  · exact complete (declareRecord E _ env)
  · exact runSelect _ env
  · exact (Careful.eval S _ env).andThen fun v => runCases _ env _ (Knows.self S v)
  · exact complete (importModule _ _ env)

theorem execStmt
    (s : Stmt) (env : Env) :
    Keeps S (Eval.execStmt E s env) := by
  exact mapFault (dispatch s env)

end Keeps

/-! ### The engine -/

/-- However deep the parts of a computation may be nested, it keeps the stores. -/
instance Careful.run
    (fuel : Nat) :
    Careful ⟨Eval.run fuel, fuel⟩ := by
  induction fuel with
  | zero =>
      exact ⟨fun _ _ _ => .giveUp, fun _ _ _ => .giveUp, fun _ _ _ _ => .giveUp, fun _ => .giveUp⟩
  | succ fuel ih =>
      exact
        { eval := fun S e env => .tracked (.evalExpr (E := ⟨Eval.run fuel, fuel⟩) e env)
          exec := fun S s env => .tracked (.execStmt (E := ⟨Eval.run fuel, fuel⟩) s env)
          call := fun typeArgs site hcallee hargs =>
            .tracked (.applyValue (E := ⟨Eval.run fuel, fuel⟩) typeArgs site hcallee hargs)
          text := fun hv => Keeps.textOf (E := ⟨Eval.run fuel, fuel⟩) hv }

instance : Careful Eval.engine := Careful.run Eval.fullFuel

end ScriptEngine
