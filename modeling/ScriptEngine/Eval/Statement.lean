import ScriptEngine.Eval.Declare
import ScriptEngine.Eval.Expression

/-!
# Statements

The completion of a statement in a scope.  A throw and a fault leave a statement as signals; a fault
takes the place of the innermost statement it leaves.
-/

namespace ScriptEngine
namespace Eval

/-- Statements other than expressions complete with nil. -/
def discard (x : Eval Flow) : Eval Flow := do
  match ← x with
  | .value _ => pure (.value .nil)
  | flow => pure flow

/-- Runs a block in a scope of its own. -/
def runBlock (E : Engine) (body : List Stmt) (env : Env) : Eval Flow := do
  discard (execBody E body (← openBlock env))

/-- Runs a block that may be missing. -/
def runOptional (E : Engine) (body : Option (List Stmt)) (env : Env) : Eval Flow :=
  match body with
  | some b => runBlock E b env
  | none => pure (.value .nil)

def compoundOp : AssignOp → Option BinaryOp
  | .assign => none
  | .add => some .add
  | .subtract => some .subtract
  | .multiply => some .multiply
  | .divide => some .divide

/-- The value that an assignment stores, where `current` reads what the target holds. -/
def assignedValue (E : Engine) (op : AssignOp) (current : Eval Value) (v : Value) : Eval Value :=
  match compoundOp op with
  | some op => do binaryOp E op (← current) v
  | none => pure v

def assignName (env : Env) (name : String) (v : Value) : Eval Unit := do
  let h ← heap
  checkOption v (h.scopes.declaredType env name) (bindingsInMethod h env) s!"variable '{name}'"
  unlessFault ((← heap).scopes.assignFault? env name)
  modify fun h => { h with scopes := h.scopes.assign env name v }

/-- The value that a scope binds a name to. -/
def currentValue (env : Env) (name : String) : Eval Value := do
  match (← heap).scopes.lookup env name with
  | some v => pure v
  | none => fault (.undefinedName name)

def assign (E : Engine) (op : AssignOp) (target value : Expr) (env : Env) : Eval Unit := do
  let v ← E.eval value env
  match target with
  | .identifier name _ => do
    let v ← assignedValue E op (currentValue env name) v
    assignName env name v
  | .member object name _ => do
    let o ← E.eval object env
    let v ← assignedValue E op (readMember o name env) v
    writeMember o name v env
  | .index object key _ => do
    let o ← E.eval object env
    let k ← E.eval key env
    let v ← assignedValue E op (readElement o k) v
    writeElement o k v
  | _ => fault (.other "invalid assignment target")

/-! ### Loops -/

/-- The elements of a value with their keys, and whether a single name takes the key. -/
def itemsOf (h : Heap) (v : Value) : Except Cause (List (Value × Value) × Bool) :=
  let indexed (items : List Value) : List (Value × Value) :=
    items.zipIdx.map fun p => (Builtin.count p.2, p.1)
  match v with
  | .array id => .ok (indexed (h.array id).toList, false)
  | .str s => .ok (indexed (s.toList.map fun c => .str (String.singleton c)), false)
  | .map id => .ok ((h.map id).entries.toList, true)
  | .collection c =>
    match h.collection c.id with
    | .items xs => .ok (indexed xs.toList, false)
    | .entries m => .ok (m.entries.toList, true)
  | .nil => .ok ([], false)
  | v => .error (.type s!"'{h.typeName v}' object is not iterable")

def bindItem (env : Env) (names : List String) (key item : Value) (keyed : Bool) : Eval Unit := do
  match names with
  | [] => pure ()
  | [n] => define env n (if keyed then key else item) .varBinding none
  | a :: b :: _ => do
    define env a key .varBinding none
    define env b item .varBinding none

/-- Runs the body of a loop for an element. -/
def runRound (E : Engine) (names : List String) (filter : Option Expr) (body : List Stmt)
    (env : Env) (key item : Value) (keyed : Bool) : Eval Flow := do
  let scope ← openBlock env
  bindItem scope names key item keyed
  match filter with
  | some e =>
    if (← E.eval e scope).isTruthy then execBody E body scope else pure .next
  | none => execBody E body scope

/-- How a loop goes on after a round: it ends with a completion, or runs on. -/
def afterRound : Flow → Option Flow
  | .stop => some (.value .nil)
  | .ret v => some (.ret v)
  | .value _ | .next => none

/-- Runs a loop over elements. -/
def runItems (round : Value → Value → Eval Flow) : List (Value × Value) → Eval Flow
  | [] => pure (.value .nil)
  | (k, v) :: rest => do
    match afterRound (← round k v) with
    | some flow => pure flow
    | none => runItems round rest

/-- Runs a loop over the values of a channel until it is closed and empty. -/
def runMessages (E : Engine) (id : Nat) (round : Value → Value → Eval Flow) : Eval Flow :=
  iterate E.fuel (fun (i : Nat) => do
    match ← Builtin.receiveValue id with
    | none => pure (.inr (.value .nil))
    | some v =>
      match afterRound (← round (Builtin.count i) v) with
      | some flow => pure (.inr flow)
      | none => pure (.inl (i + 1))) 0

/-- Runs a loop over a value. -/
def runFor (E : Engine) (names : List String) (iterable : Expr) (filter : Option Expr)
    (body : List Stmt) (env : Env) : Eval Flow := do
  match ← E.eval iterable env with
  | .channel id _ =>
    runMessages E id fun key item => runRound E names filter body env key item false
  | v => do
    let (items, keyed) ← ofExcept (itemsOf (← heap) v)
    runItems (fun key item => runRound E names filter body env key item keyed) items

/-- Whether a loop with a condition goes on. -/
def loopContinues (E : Engine) (test : Option Expr) (env : Env) : Eval Bool :=
  match test with
  | some e => do pure (← E.eval e env).isTruthy
  | none => pure true

def runLoop (E : Engine) (test : Option Expr) (body : List Stmt) (env : Env) : Eval Flow :=
  iterate E.fuel (fun (_ : Unit) => do
    if ← loopContinues E test env then
      match afterRound (← execBody E body (← openBlock env)) with
      | some flow => pure (.inr flow)
      | none => pure (.inl ())
    else pure (.inr (.value .nil))) ()

/-! ### Exceptions -/

/-- Runs the clause that takes a thrown value. -/
def runClause (E : Engine) (c : CatchClause Stmt) (v : Value) (env : Env) : Eval Flow := do
  let scope ← openBlock env
  match c.binding with
  | some n => define scope n v .varBinding none
  | none => pure ()
  discard (execBody E c.body scope)

/-- Runs the body of a try and, for what it throws, the first clause that takes it. -/
def runGuarded (E : Engine) (body : List Stmt) (catches : List (CatchClause Stmt)) (env : Env) :
    Eval Flow :=
  catching catches (runBlock E body env) fun c e => runClause E c e.value env

/-- Performs a cleanup after a computation in any case; the outcome of the computation counts if
the cleanup completes, and else that of the cleanup. -/
def withCleanup (x cleanup : Eval Flow) : Eval Flow := do
  note .shielded
  let outcome ← attempt x
  note .cleaning
  match ← attempt cleanup with
  | .ok (.value _) => do
    note .cleaned
    ofOutcome outcome
  | later => do
    note .overruled
    supersede outcome
    ofOutcome later

/-- Runs a try: its cleanup runs in any case, and its outcome counts unless it completes. -/
def runTry (E : Engine) (body : List Stmt) (catches : List (CatchClause Stmt))
    (cleanup : Option (List Stmt)) (env : Env) : Eval Flow :=
  match cleanup with
  | none => runGuarded E body catches env
  | some c => withCleanup (runGuarded E body catches env) do execBody E c (← openBlock env)

/-! ### Select and switch -/

def evalChannel (E : Engine) (e : Expr) (env : Env) : Eval Nat := do
  match ← E.eval e env with
  | .channel id _ => pure id
  | v => fault (.mismatch "Channel" ((← heap).typeName v))

def evalArm (E : Engine) (env : Env) (c : SelectCase Expr Stmt) : Eval Channel.Arm :=
  match c.arm with
  | .receive _ e => do pure (.receive (← evalChannel E e env))
  | .closed e => do pure (.closed (← evalChannel E e env))

def runReceived (E : Engine) (c : SelectCase Expr Stmt) (v : Value) (env : Env) : Eval Flow := do
  let scope ← openBlock env
  match c.arm with
  | .receive (some n) _ => define scope n v .letBinding none
  | _ => pure ()
  discard (execBody E c.body scope)

/-- Waits for one of several channels and runs its case. -/
def runSelect (E : Engine) (cases : List (SelectCase Expr Stmt)) (env : Env) : Eval Flow := do
  let arms ← cases.mapM (evalArm E env)
  match ← Builtin.selectArm E.fuel arms with
  | .received i v =>
    match cases[i]? with
    | some c => runReceived E c v env
    | none => pure (.value .nil)
  | .closed i =>
    match cases[i]? with
    | some c => runBlock E c.body env
    | none => pure (.value .nil)
  | .exhausted => pure (.value .nil)

/-- Whether one of several expressions equals a value; those after it are not evaluated. -/
def matchesAny (E : Engine) (subject : Value) (env : Env) : List Expr → Eval Bool
  | [] => pure false
  | e :: rest => do
    let v ← E.eval e env
    if (← heap).equals v subject then pure true else matchesAny E subject env rest

/-- Whether a case takes a value; a case with a type binds it. -/
def casePasses (E : Engine) (p : CasePattern Expr) (subject : Value) (env scope : Env) :
    Eval Bool := do
  match p with
  | .values es => matchesAny E subject env es
  | .type n t =>
    if (← heap).instanceOf subject t.canonical then do
      define scope n subject .letBinding none
      pure true
    else pure false

/-- Runs the first case that takes a value. -/
def runCases (E : Engine) (subject : Value) (otherwise : Option (List Stmt)) (env : Env) :
    List (SwitchCase Expr Stmt) → Eval Flow
  | [] => runOptional E otherwise env
  | c :: rest => do
    let scope ← openBlock env
    if ← casePasses E c.pattern subject env scope then discard (execBody E c.body scope)
    else runCases E subject otherwise env rest

/-- Runs the first branch whose condition holds. -/
def runBranches (E : Engine) (otherwise : Option (List Stmt)) (env : Env) :
    List (Expr × List Stmt) → Eval Flow
  | [] => runOptional E otherwise env
  | (test, body) :: rest => do
    if (← E.eval test env).isTruthy then runBlock E body env
    else runBranches E otherwise env rest

def declareVariable (E : Engine) (kind : BindingKind) (name : String) (type : Option TypeExpr)
    (init : Option Expr) (env : Env) : Eval Unit := do
  let v ← match init with
    | some e => E.eval e env
    | none => pure .nil
  let t := type.map TypeExpr.canonical
  checkOption v t (bindingsInMethod (← heap) env) s!"variable '{name}'"
  define env name v kind t

def declareFunction (d : FunctionDecl Stmt) (env : Env) : Eval Unit := do
  let v ← change fun h =>
    let r := h.newNumber
    (Value.function r.1
      { name := d.name
        typeParams := d.typeParams
        params := d.params
        returns := d.returns.map TypeExpr.canonical
        body := .block d.body
        closure := env }, r.2)
  define env d.name v .varBinding none

/-- Defers a call until the frame of a scope is left. -/
def deferCall (env : Env) (d : Deferred) : Eval Unit := do
  modify fun h => { h with scopes := h.scopes.deferCall env d }
  note (.deferred (← currentFrame) d)

def importModule (name : String) (localName : Option String) (env : Env) : Eval Unit :=
  if name == Module.sys.name || name == Module.math.name then
    modify fun h => { h with scopes := h.scopes.importAs env (localName.getD name) name }
  else fault (.other s!"unknown module '{name}'")

/-- A statement that completes with nil. -/
def complete (x : Eval Unit) : Eval Flow := do
  x
  pure (.value .nil)

/-- The completion of a statement, apart from the place of its faults. -/
def dispatch (E : Engine) (s : Stmt) (env : Env) : Eval Flow := do
  match s with
  | .expression e _ => do pure (.value (← E.eval e env))
  | .variable kind name type init _ => complete (declareVariable E kind name type init env)
  | .assignment op target value _ => complete (assign E op target value env)
  | .ret (some e) _ => do pure (.ret (← E.eval e env))
  | .ret none _ => pure (.ret .nil)
  | .function d => complete (declareFunction d env)
  | .branch test body elifs otherwise _ =>
    runBranches E otherwise env ((test, body) :: elifs)
  | .forIn names iterable filter body _ => runFor E names iterable filter body env
  | .loop test body _ => runLoop E test body env
  | .stop _ => pure .stop
  | .next _ => pure .next
  | .attempt body catches cleanup _ => runTry E body catches cleanup env
  | .throw e span => do throwValue ⟨← E.eval e env, some span⟩
  | .defer call span => complete (deferCall env ⟨call, env, span⟩)
  | .classDecl d => complete (declareClass E d env)
  | .interfaceDecl d => complete (declareInterface E d env)
  | .enumDecl d => complete (declareEnum E d env)
  | .recordDecl d => complete (declareRecord d env)
  | .select cases _ => runSelect E cases env
  | .switch subject cases otherwise _ => do
    let v ← E.eval subject env
    runCases E v otherwise env cases
  | .importModule name localName _ => complete (importModule name localName env)

def execStmt (E : Engine) (s : Stmt) (env : Env) : Eval Flow :=
  mapFault (·.locate s.span) (dispatch E s env)

/-! ### The engine -/

/-- One step into a computation; its parts are run by an engine. -/
def step (E : Engine) {α : Type} : Task α → Eval α
  | .eval e env => tracked (.eval e env) .value (evalExpr E e env)
  | .exec s env => tracked (.exec s env) id (execStmt E s env)
  | .call f args typeArgs site =>
    tracked (.call f args typeArgs site) .value (applyValue E f args typeArgs site)
  | .text v => textOf E v

/-- Runs a computation whose parts are nested no deeper than the fuel. -/
def run : Nat → {α : Type} → Task α → Eval α
  | 0, _, _ => giveUp
  | fuel + 1, _, t => step ⟨run fuel, fuel⟩ t

def fullFuel : Nat := 0x1000000000000

/-- The engine that runs programs. -/
def engine : Engine := ⟨run fullFuel, fullFuel⟩

end Eval
end ScriptEngine
