import ScriptEngine.Eval.Statement
import ScriptEngine.Proofs.Evaluation.Builtins

/-!
# What programs are composed of

The expressions and the statements of the language, and with them every task of the engine, are
composed of the operations of `Composed`.  The main result is `step`: one step into a computation
is composed of operations and of the tasks that the engine runs.
-/

namespace ScriptEngine

/-- A statement that neither defers a call nor guards a body. -/
def Stmt.IsPlain : Stmt → Prop
  | .defer .. | .attempt .. => False
  | _ => True

namespace Composed

variable {E : Engine} {r : Role} {α : Type}

/-! ### Operators, members and elements -/

@[grind ←]
theorem binaryOp
    (op : BinaryOp) (a b : Value) :
    Composed E r (Eval.binaryOp E op a b) := by
  unfold Eval.binaryOp
  grind

@[grind ←]
theorem negate
    (v : Value) :
    Composed E r (Eval.negate v) := by
  unfold Eval.negate
  grind

@[grind ←]
theorem bindBuiltin
    (receiver : Value) (name : String) :
    Composed E r (Eval.bindBuiltin receiver name) := by
  unfold Eval.bindBuiltin
  grind

@[grind ←]
theorem bindMethod
    (o : Instance) (lookup : ClassDef) (name : String) :
    Composed E r (Eval.bindMethod o lookup name) := by
  unfold Eval.bindMethod
  grind

@[grind ←]
theorem bindStatic
    (c : ClassDef) (name : String) :
    Composed E r (Eval.bindStatic c name) := by
  unfold Eval.bindStatic
  grind

@[grind ←]
theorem checkField
    (o : Instance) (name : String) (env : Env) :
    Composed E r (Eval.checkField o name env) := by
  unfold Eval.checkField
  grind

@[grind ←]
theorem getInstanceMember
    (o : Instance) (name : String) (env : Env) :
    Composed E r (Eval.getInstanceMember o name env) := by
  unfold Eval.getInstanceMember
  grind

@[grind ←]
theorem getClassMember
    (c : ClassDef) (name : String) :
    Composed E r (Eval.getClassMember c name) := by
  unfold Eval.getClassMember
  grind

@[grind ←]
theorem getBuiltinMember
    (v : Value) (name : String) :
    Composed E r (Eval.getBuiltinMember v name) := by
  unfold Eval.getBuiltinMember
  grind

@[grind ←]
theorem readMember
    (v : Value) (name : String) (env : Env) :
    Composed E r (Eval.readMember v name env) := by
  unfold Eval.readMember
  grind

@[grind ←]
theorem assignField
    (o : Instance) (name : String) (v : Value) (env : Env) :
    Composed E r (Eval.assignField o name v env) := by
  unfold Eval.assignField
  generalize o.cls.fieldNamed name = declared
  cases declared with
  | none =>
      grind
  | some df =>
      grind

@[grind ←]
theorem assignStatic
    (c : ClassDef) (name : String) (v : Value) :
    Composed E r (Eval.assignStatic c name v) := by
  unfold Eval.assignStatic
  grind

@[grind ←]
theorem writeMember
    (target : Value) (name : String) (v : Value) (env : Env) :
    Composed E r (Eval.writeMember target name v env) := by
  unfold Eval.writeMember
  grind

@[grind ←]
theorem readElement
    (v key : Value) :
    Composed E r (Eval.readElement v key) := by
  unfold Eval.readElement
  grind

@[grind ←]
theorem assignElement
    (c : Collection) (key v : Value) :
    Composed E r (Eval.assignElement c key v) := by
  unfold Eval.assignElement
  grind

@[grind ←]
theorem writeElement
    (target key v : Value) :
    Composed E r (Eval.writeElement target key v) := by
  unfold Eval.writeElement
  grind

/-! ### Calls of values and members -/

@[grind ←]
theorem applyValue
    (callee : Value) (args : List Value) (typeArgs : List TypeExpr) (site : Span) :
    Composed E r (Eval.applyValue E callee args typeArgs site) := by
  unfold Eval.applyValue
  grind

@[grind ←]
theorem callInstanceMember
    (o : Instance) (name : String) (args : List Value) (typeArgs : List TypeExpr)
    (env : Env) (site : Span) :
    Composed E r (Eval.callInstanceMember E o name args typeArgs env site) := by
  unfold Eval.callInstanceMember
  grind

@[grind ←]
theorem callClassMember
    (c : ClassDef) (name : String) (args : List Value) (typeArgs : List TypeExpr)
    (env : Env) (site : Span) :
    Composed E r (Eval.callClassMember E c name args typeArgs env site) := by
  unfold Eval.callClassMember
  grind

@[grind ←]
theorem callMember
    (v : Value) (name : String) (args : List Value) (typeArgs : List TypeExpr)
    (env : Env) (site : Span) :
    Composed E r (Eval.callMember E v name args typeArgs env site) := by
  unfold Eval.callMember
  grind

@[grind ←]
theorem superTarget
    (env : Env) :
    Composed E r (Eval.superTarget env) := by
  unfold Eval.superTarget
  grind

@[grind ←]
theorem constructAbove
    (args : List Value) (env : Env) (site : Span) :
    Composed E r (Eval.constructAbove E args env site) := by
  unfold Eval.constructAbove
  grind

@[grind ←]
theorem callAbove
    (name : String) (args : List Value) (env : Env) (site : Span) :
    Composed E r (Eval.callAbove E name args env site) := by
  unfold Eval.callAbove
  grind

@[grind ←]
theorem memberAbove
    (name : String) (env : Env) :
    Composed E r (Eval.memberAbove name env) := by
  unfold Eval.memberAbove
  grind

/-! ### Declarations of types -/

@[grind ←]
theorem fillStatics
    (id : Nat) (owner : String) (env : Env) (fs : List (FieldDecl Expr)) :
    Composed E r (Eval.fillStatics E id owner env fs) := by
  induction fs with
  | nil =>
      exact .pure _
  | cons f rest ih =>
      unfold Eval.fillStatics
      grind

@[grind ←]
theorem announceClass
    (c : ClassDef) (env : Env) :
    Composed E r (Eval.announceClass c env) := by
  unfold Eval.announceClass
  grind

@[grind ←]
theorem declareClass
    (d : ClassDecl Expr Stmt) (env : Env) :
    Composed E r (Eval.declareClass E d env) := by
  unfold Eval.declareClass
  refine .bind heap fun h => ?_
  generalize d.parent = parent
  cases parent with
  | none =>
      refine .bind (.pure _) fun p => .bind (ofExcept _) fun interfaces => ?_
      refine .bind (unlessFault _) fun _ => ?_
      grind
  | some t =>
      refine .bind (ofExcept _) fun q => .bind (.pure _) fun p => ?_
      refine .bind (ofExcept _) fun interfaces => .bind (unlessFault _) fun _ => ?_
      grind

@[grind ←]
theorem declareInterface
    (d : InterfaceDecl Expr Stmt) (env : Env) :
    Composed E r (Eval.declareInterface E d env) := by
  unfold Eval.declareInterface
  refine .bind heap fun h => .bind (ofExcept _) fun parents => .bind (unlessFault _) fun _ => ?_
  grind

@[grind ←]
theorem makeConstant
    (c : ClassDef) (k : EnumConstant Expr) (ordinal : Nat) (env : Env) :
    Composed E r (Eval.makeConstant E c k ordinal env) := by
  unfold Eval.makeConstant
  grind

@[grind ←]
theorem makeConstants
    (c : ClassDef) (env : Env) (ordinal : Nat) (ks : List (EnumConstant Expr)) :
    Composed E r (Eval.makeConstants E c env ordinal ks) := by
  induction ks generalizing ordinal with
  | nil =>
      exact .pure _
  | cons k rest ih =>
      unfold Eval.makeConstants
      grind

@[grind ←]
theorem declareEnum
    (d : EnumDecl Expr Stmt) (env : Env) :
    Composed E r (Eval.declareEnum E d env) := by
  unfold Eval.declareEnum
  refine .bind heap fun h => .bind (ofExcept _) fun interfaces => ?_
  refine .bind (change' fun h => ?_) fun id => .bind (unlessFault _) fun _ => ?_
  · grind
  · refine .bind (announceClass _ _) fun _ => .bind (makeConstants _ _ _ _) fun _ => ?_
    grind

@[grind ←]
theorem declareRecord
    (d : RecordDecl Stmt) (env : Env) :
    Composed E r (Eval.declareRecord d env) := by
  unfold Eval.declareRecord
  refine .bind heap fun h => .bind (ofExcept _) fun interfaces => .bind (unlessFault _) fun _ => ?_
  grind

/-! ### Expressions -/

@[grind ←]
theorem evalList
    (env : Env) (es : List Expr) :
    Composed E r (Eval.evalList E env es) := by
  unfold Eval.evalList
  grind

@[grind ←]
theorem interpolate
    (env : Env) (written : String) (parts : List (StringPart Expr)) :
    Composed E r (Eval.interpolate E env written parts) := by
  fun_induction Eval.interpolate E env written parts <;> grind

@[grind ←]
theorem evalEntries
    (env : Env) (m : KeyedMap) (entries : List (Expr × Expr)) :
    Composed E r (Eval.evalEntries E env m entries) := by
  induction entries generalizing m with
  | nil =>
      exact .pure _
  | cons e rest ih =>
      unfold Eval.evalEntries
      grind

@[grind ←]
theorem makeLambda
    (ps : List Param) (returns : Option TypeExpr) (body : LambdaBody Expr Stmt) (env : Env) :
    Composed E r (Eval.makeLambda ps returns body env) := by
  unfold Eval.makeLambda
  grind

@[grind ←]
theorem valueOfCall
    (callee : Expr) (typeArgs : List TypeExpr) (args : List Expr) (site : Span) (env : Env) :
    Composed E r (Eval.valueOfCall E callee typeArgs args site env) := by
  unfold Eval.valueOfCall
  grind

@[grind ←]
theorem evalExpr
    (e : Expr) (env : Env) :
    Composed E r (Eval.evalExpr E e env) := by
  unfold Eval.evalExpr
  split <;> grind

/-! ### Assignments and loops -/

section Statements

variable {envs : List Env} {env : Env}

@[grind ←]
theorem discard
    {x : Eval Flow}
    (hx : Composed E r x) :
    Composed E r (Eval.discard x) := by
  unfold Eval.discard
  grind

/-- A block opens a scope of its own within its frame. -/
@[grind ←]
theorem runBlock
    (body : List Stmt)
    (henv : env ∈ envs) :
    Composed E (.statement envs) (Eval.runBlock E body env) := by
  unfold Eval.runBlock
  exact .block henv fun scope => discard (execBody _ List.mem_cons_self)

@[grind ←]
theorem runOptional
    (body : Option (List Stmt))
    (henv : env ∈ envs) :
    Composed E (.statement envs) (Eval.runOptional E body env) := by
  unfold Eval.runOptional
  grind

@[grind ←]
theorem assignedValue
    {current : Eval Value} (op : AssignOp) (v : Value)
    (hcurrent : Composed E r current) :
    Composed E r (Eval.assignedValue E op current v) := by
  unfold Eval.assignedValue
  grind

@[grind ←]
theorem assignName
    (env : Env) (name : String) (v : Value) :
    Composed E r (Eval.assignName env name v) := by
  unfold Eval.assignName
  grind

@[grind ←]
theorem currentValue
    (env : Env) (name : String) :
    Composed E r (Eval.currentValue env name) := by
  unfold Eval.currentValue
  grind

@[grind ←]
theorem assign
    (op : AssignOp) (target value : Expr) (env : Env) :
    Composed E r (Eval.assign E op target value env) := by
  unfold Eval.assign
  grind

@[grind ←]
theorem bindItem
    (env : Env) (names : List String) (key item : Value) (keyed : Bool) :
    Composed E r (Eval.bindItem env names key item keyed) := by
  unfold Eval.bindItem
  grind

@[grind ←]
theorem runRound
    (names : List String) (filter : Option Expr) (body : List Stmt)
    (key item : Value) (keyed : Bool)
    (henv : env ∈ envs) :
    Composed E (.statement envs) (Eval.runRound E names filter body env key item keyed) := by
  unfold Eval.runRound
  refine .block henv fun scope => .bind (bindItem _ _ _ _ _) fun _ => ?_
  grind

@[grind ←]
theorem runItems
    {round : Value → Value → Eval Flow} (items : List (Value × Value))
    (hround : ∀ k v, Composed E r (round k v)) :
    Composed E r (Eval.runItems round items) := by
  fun_induction Eval.runItems round items <;> grind

@[grind ←]
theorem runMessages
    {round : Value → Value → Eval Flow} (id : Nat)
    (hround : ∀ k v, Composed E r (round k v)) :
    Composed E r (Eval.runMessages E id round) := by
  unfold Eval.runMessages
  grind

@[grind ←]
theorem runFor
    (names : List String) (iterable : Expr) (filter : Option Expr) (body : List Stmt)
    (henv : env ∈ envs) :
    Composed E (.statement envs) (Eval.runFor E names iterable filter body env) := by
  unfold Eval.runFor
  grind

@[grind ←]
theorem loopContinues
    (test : Option Expr) (env : Env) :
    Composed E r (Eval.loopContinues E test env) := by
  unfold Eval.loopContinues
  grind

@[grind ←]
theorem runLoop
    (test : Option Expr) (body : List Stmt)
    (henv : env ∈ envs) :
    Composed E (.statement envs) (Eval.runLoop E test body env) := by
  unfold Eval.runLoop
  refine iterate fun _ => .bind (loopContinues _ _) fun goesOn => ?_
  split
  · refine .block henv fun scope => .bind (execBody _ List.mem_cons_self) fun flow => ?_
    grind
  · exact .pure _

/-! ### Exceptions -/

@[grind ←]
theorem runClause
    (c : CatchClause Stmt) (v : Value)
    (henv : env ∈ envs) :
    Composed E (.statement envs) (Eval.runClause E c v env) := by
  unfold Eval.runClause
  refine .block henv fun scope => ?_
  grind

/-! ### Select and switch -/

@[grind ←]
theorem evalChannel
    (e : Expr) (env : Env) :
    Composed E r (Eval.evalChannel E e env) := by
  unfold Eval.evalChannel
  grind

@[grind ←]
theorem evalArm
    (env : Env) (c : SelectCase Expr Stmt) :
    Composed E r (Eval.evalArm E env c) := by
  unfold Eval.evalArm
  grind

@[grind ←]
theorem runReceived
    (c : SelectCase Expr Stmt) (v : Value)
    (henv : env ∈ envs) :
    Composed E (.statement envs) (Eval.runReceived E c v env) := by
  unfold Eval.runReceived
  refine .block henv fun scope => ?_
  grind

@[grind ←]
theorem runSelect
    (cases : List (SelectCase Expr Stmt))
    (henv : env ∈ envs) :
    Composed E (.statement envs) (Eval.runSelect E cases env) := by
  unfold Eval.runSelect
  grind

@[grind ←]
theorem matchesAny
    (subject : Value) (env : Env) (es : List Expr) :
    Composed E r (Eval.matchesAny E subject env es) := by
  induction es with
  | nil =>
      exact .pure _
  | cons e rest ih =>
      unfold Eval.matchesAny
      grind

@[grind ←]
theorem casePasses
    (p : CasePattern Expr) (subject : Value) (env scope : Env) :
    Composed E r (Eval.casePasses E p subject env scope) := by
  unfold Eval.casePasses
  grind

@[grind ←]
theorem runCases
    (subject : Value) (otherwise : Option (List Stmt)) (cs : List (SwitchCase Expr Stmt))
    (henv : env ∈ envs) :
    Composed E (.statement envs) (Eval.runCases E subject otherwise env cs) := by
  induction cs generalizing envs with
  | nil =>
      exact runOptional _ henv
  | cons c rest ih =>
      unfold Eval.runCases
      refine .block henv fun scope => .bind (casePasses _ _ _ _) fun passes => ?_
      split
      · exact discard (execBody _ List.mem_cons_self)
      · exact ih (List.mem_cons_of_mem _ henv)

@[grind ←]
theorem runBranches
    (otherwise : Option (List Stmt)) (branches : List (Expr × List Stmt))
    (henv : env ∈ envs) :
    Composed E (.statement envs) (Eval.runBranches E otherwise env branches) := by
  induction branches with
  | nil =>
      exact runOptional _ henv
  | cons b rest ih =>
      unfold Eval.runBranches
      grind

/-! ### Statements -/

@[grind ←]
theorem declareVariable
    (kind : BindingKind) (name : String) (type : Option TypeExpr) (init : Option Expr)
    (env : Env) :
    Composed E r (Eval.declareVariable E kind name type init env) := by
  unfold Eval.declareVariable
  grind

@[grind ←]
theorem declareFunction
    (d : FunctionDecl Stmt) (env : Env) :
    Composed E r (Eval.declareFunction d env) := by
  unfold Eval.declareFunction
  grind

@[grind ←]
theorem importModule
    (name : String) (localName : Option String) (env : Env) :
    Composed E r (Eval.importModule name localName env) := by
  unfold Eval.importModule
  grind

@[grind ←]
theorem complete
    {x : Eval Unit}
    (hx : Composed E r x) :
    Composed E r (Eval.complete x) := by
  unfold Eval.complete
  grind

/-- A statement may work in any scope that its frame is known to be around. -/
theorem dispatch
    {s : Stmt} (hplain : s.IsPlain)
    (henv : env ∈ envs) :
    Composed E (.statement envs) (Eval.dispatch E s env) := by
  unfold Eval.dispatch
  split
  all_goals first | exact hplain.elim | grind

end Statements

end Composed

/-! ### Tasks -/

/-- The role of a task. -/
def Task.role : Task α → Role
  | .exec _ env => .statement [env]
  | _ => .expression

/-- To tell where a fault was raised leaves its cause as it is. -/
theorem Fault.cause_locate
    (span : Span) (f : Fault) :
    (f.locate span).cause = f.cause := by
  unfold Fault.locate
  split <;> rfl

/-- A property of computations that each operation preserves, and that the statements have which defer a
call or guard a body. -/
structure Preserved (P : Role → {α : Type} → Eval α → Prop) : Prop where
  giveUp : ∀ {r : Role} {α : Type}, P r (Eval.giveUp : Eval α)
  composed : ∀ {E : Engine}, (∀ {β : Type} (t : Task β), P t.role (E.run t)) →
    ∀ {r : Role} {α : Type} {x : Eval α}, Composed E r x → P r x
  tracked : ∀ {r : Role} {α : Type} {a : Act} {flow : α → Flow} {x : Eval α}, P r x →
    P r (Eval.tracked a flow x)
  mapFault : ∀ {r : Role} {α : Type} {f : Fault → Fault} {x : Eval α}, (∀ e, (f e).cause = e.cause) →
    P r x → P r (Eval.mapFault f x)
  defer : ∀ (env : Env) (d : Deferred), P (.statement [env]) (Eval.complete (Eval.deferCall env d))
  catching : ∀ {r : Role} {clauses : List (CatchClause Stmt)} {x : Eval Flow}
    {handler : CatchClause Stmt → Exception → Eval Flow}, P r x → (∀ c e, P r (handler c e)) →
    P r (Eval.catching clauses x handler)
  withCleanup : ∀ {r : Role} {x cleanup : Eval Flow}, P r x → P r cleanup →
    P r (Eval.withCleanup x cleanup)

namespace Preserved

variable {P : Role → {α : Type} → Eval α → Prop} {E : Engine}

/-- The body of a try, its clauses and its cleanup are composed of operations. -/
theorem runTry
    (hP : Preserved P) (hE : ∀ {β : Type} (t : Task β), P t.role (E.run t)) (body : List Stmt)
    (catches : List (CatchClause Stmt)) (cleanup : Option (List Stmt)) (env : Env) :
    P (.statement [env]) (Eval.runTry E body catches cleanup env) := by
  have hguarded : P (.statement [env]) (Eval.runGuarded E body catches env) :=
    hP.catching (hP.composed hE (.runBlock body List.mem_cons_self)) fun c e =>
      hP.composed hE (.runClause c e.value List.mem_cons_self)
  cases cleanup with
  | none =>
      exact hguarded
  | some cl =>
      exact hP.withCleanup hguarded (hP.composed hE (.block List.mem_cons_self fun scope =>
        .execBody cl List.mem_cons_self))

theorem execStmt
    (hP : Preserved P) (hE : ∀ {β : Type} (t : Task β), P t.role (E.run t)) (s : Stmt) (env : Env) :
    P (.statement [env]) (Eval.execStmt E s env) := by
  refine hP.mapFault (Fault.cause_locate s.span) ?_
  by_cases hplain : s.IsPlain
  · exact hP.composed hE (.dispatch hplain List.mem_cons_self)
  · cases s with
    | defer call span =>
        exact hP.defer env ⟨call, env, span⟩
    | attempt body catches cleanup span =>
        exact hP.runTry hE body catches cleanup env
    | _ =>
        exact absurd trivial hplain

/-- One step into a computation has the property if the tasks of its engine have it. -/
theorem step
    (hP : Preserved P) (hE : ∀ {β : Type} (t : Task β), P t.role (E.run t)) (t : Task α) :
    P t.role (Eval.step E t) := by
  cases t with
  | eval e env =>
      exact hP.tracked (hP.composed hE (.evalExpr e env))
  | exec s env =>
      exact hP.tracked (hP.execStmt hE s env)
  | call callee args typeArgs site =>
      exact hP.tracked (hP.composed hE (.applyValue callee args typeArgs site))
  | text v =>
      exact hP.composed hE (.textOf v)

/-- Whatever the engine runs has the property. -/
theorem run
    (hP : Preserved P) (fuel : Nat) (t : Task α) :
    P t.role (Eval.run fuel t) := by
  induction fuel generalizing α with
  | zero =>
      exact hP.giveUp
  | succ fuel ih =>
      exact hP.step ih t

end Preserved

end ScriptEngine
