import ScriptEngine.Eval.Monad

/-!
# Calls of declared code

Every body that a program declares runs through `invoke`, which opens the frame, checks arguments
and result against their declared types, runs the deferred calls, and notes the call on a fault
that leaves it.

* `leaveFrame` runs the deferred calls of a frame, the last deferred first; one that throws or
  fails takes the place of the outcome.
* `runMethod` runs a method on an instance, `construct` builds one: the fields of the oldest
  ancestor come first, then the constructor.
-/

namespace ScriptEngine
namespace Eval

/-- Fails unless a value may be stored under a declared type. -/
def check (v : Value) (declared : TypeExpr) (bs : Bindings) (what : String) : Eval Unit := do
  unlessFault ((← heap).checkFault? v declared bs what)

/-- Fails unless a value may be stored under a type that may be declared. -/
def checkOption (v : Value) (declared : Option TypeExpr) (bs : Bindings) (what : String) :
    Eval Unit :=
  match declared with
  | some t => check v t bs what
  | none => pure ()

/-- Whether code that runs on a receiver may use a member of a class. -/
def mayAccess (h : Heap) (visibility : Visibility) (declaring : String)
    (caller : Option Receiver) : Bool :=
  match visibility, caller with
  | .visible, _ => true
  | _, none => false
  | .hidden, some r => r.cls.name == declaring
  | .guarded, some r => r.cls.isA declaring || Registry.isSubtype h.registry declaring r.cls.name

/-- Fails unless the code of a scope may use a member of a class. -/
def requireAccess (visibility : Visibility) (member declaring : String) (env : Env) :
    Eval Unit := do
  match visibility with
  | .visible => pure ()
  | _ =>
    let h ← heap
    if mayAccess h visibility declaring (h.scopes.receiver env) then pure ()
    else fault (.access visibility member declaring)

/-- What type parameters stand for in the method that a scope belongs to. -/
def bindingsInMethod (h : Heap) (env : Env) : Bindings :=
  match h.scopes.receiver env with
  | some r => r.this.bindingsAt r.cls.name
  | none => []

def openBlock (env : Env) : Eval Env :=
  change fun h =>
    let r := h.scopes.child env
    (r.1, { h with scopes := r.2 })

/-- Opens the scope of a call. -/
def openFrame (env : Env) (name : String) (receiver : Option Receiver) : Eval Env :=
  change fun h =>
    let r := h.scopes.enter env name receiver
    (r.1, { h with scopes := r.2 })

/-- Binds a name in the innermost scope. -/
def define (env : Env) (name : String) (v : Value) (kind : BindingKind)
    (type : Option TypeExpr) : Eval Unit :=
  modify fun h => { h with scopes := h.scopes.define env name ⟨v, kind, type⟩ }

def makeArray (xs : List Value) : Eval Value := change fun h => h.newArray xs.toArray

/-- Runs statements one after another; the value of the last one counts. -/
def execList (E : Engine) (env : Env) (last : Value) : List Stmt → Eval Flow
  | [] => pure (.value last)
  | s :: rest => do
    match ← E.exec s env with
    | .value v => execList E env v rest
    | flow => pure flow

/-- Runs the statements of a block in a scope. -/
def execBody (E : Engine) (body : List Stmt) (env : Env) : Eval Flow :=
  tracked (.block body env) id (execList E env .nil body)

/-- Runs the code of a call in its scope. -/
def runCode (E : Engine) (code : LambdaBody Expr Stmt) (env : Env) : Eval Flow :=
  match code with
  | .block ss => execBody E ss env
  | .expr e => do pure (.value (← E.eval e env))

/-- Makes a deferred call; a function that was deferred without arguments is called. -/
def makeDeferredCall (E : Engine) (d : Deferred) : Eval Unit := do
  let v ← E.eval d.call d.env
  match d.call with
  | .call .. => pure ()
  | _ => if v.isCallable then do let _ ← E.call v [] [] d.span

/-- Makes the deferred calls of a frame, those first that were deferred last. -/
def runDefers (E : Engine) (frame : ScopeId) (outcome : Except Signal Flow) :
    List Deferred → Eval (Except Signal Flow)
  | [] => pure outcome
  | d :: earlier => do
    note (.ran frame d)
    match ← attempt (mapFault (·.locate d.span) (makeDeferredCall E d)) with
    | .ok () => do
      note .cleaned
      runDefers E frame outcome earlier
    | .error s => do
      note .overruled
      supersede outcome
      runDefers E frame (.error s) earlier

/-- Takes the deferred calls of a frame. -/
def takeDefers (env : Env) : Eval (List Deferred) :=
  change fun h =>
    let r := h.scopes.takeDeferred env
    (r.1, { h with scopes := r.2 })

/-- Runs the code of a frame and then its deferred calls. -/
def leaveFrame (E : Engine) (env : Env) (code : LambdaBody Expr Stmt) : Eval Flow := do
  let frame := env.headD 0
  let caller ← currentFrame
  note (.entered frame caller)
  let outcome ← within frame do
    let outcome ← attempt (runCode E code env)
    let defers ← takeDefers env
    note (.stopped frame)
    note (.due frame defers)
    runDefers E frame outcome defers.reverse
  note (.left frame caller)
  ofOutcome outcome

/-- The result of a body; a loop exit must not leave it. -/
def resultOf : Flow → Eval Value
  | .value v | .ret v => pure v
  | .stop => fault (.outsideLoop "break")
  | .next => fault (.outsideLoop "continue")

/-- Checks an argument; of a variadic parameter each element is checked. -/
def requireArgument (i : Invocation) (p : Param) (arg : Value) (t : TypeExpr) : Eval Unit := do
  let what := s!"argument '{p.name}' of {i.name}"
  match p.variadic, arg with
  | true, .array id => ((← heap).array id).toList.forM fun v => check v t i.bindings what
  | true, _ => pure ()
  | false, v => check v t i.bindings what

def bindArguments (i : Invocation) (env : Env) : List Param → List Value → Eval Unit
  | p :: ps, v :: vs => do
    match p.type with
    | some t => requireArgument i p v t
    | none => pure ()
    define env p.name v .varBinding none
    bindArguments i env ps vs
  | _, _ => pure ()

def fitArguments (ps : List Param) (args : List Value) : Eval (List Value) :=
  match Overload.pack ps args with
  | (fixed, some rest) => do
    let v ← makeArray rest
    pure (fixed ++ [v])
  | (fixed, none) => pure fixed

/-- Whether a type says that nothing is returned. -/
def isVoid (t : TypeExpr) : Bool := t.headName?.any fun n => canonicalName n == "Void"

def checkResult (i : Invocation) (v : Value) : Eval Value :=
  match i.returns with
  | none => pure v
  | some t =>
    if isVoid t then pure .nil
    else do
      check v t i.bindings s!"return value of {i.name}"
      pure v

/-- Runs a body in a frame of its own. -/
def runFrame (E : Engine) (i : Invocation) (args : List Value) : Eval Value := do
  let args ← fitArguments i.params args
  let env ← openFrame i.closure i.name i.receiver
  i.locals.forM fun l => define env l.1 l.2 .finalBinding none
  bindArguments i env i.params args
  let flow ← leaveFrame E env i.body
  let v ← resultOf flow
  checkResult i v

/-- Runs a body one call deeper. -/
def invoke (E : Engine) (i : Invocation) (args : List Value) (site : Span) : Eval Value :=
  deeper i args (mapFault (·.leave i.name site) (runFrame E i args))

/-- What the type parameters of a method stand for while it is called without type arguments. -/
def boundsOf (ps : List TypeParam) : Bindings := ps.map fun p => (p.name, p.bound.getD .any)

def bodyOf (m : Method) : Eval (List Stmt) :=
  match m.body with
  | some b => pure b
  | none => fault (.other s!"method '{m.name}' of {m.owner} has no body")

/-- The components of a record with their values. -/
def componentValues (h : Heap) (o : Instance) : List (String × Value) :=
  o.cls.own.components.map fun c => (c.name, (h.field? o c.name).getD .nil)

def runMethod (E : Engine) (o : Instance) (m : Method) (args : List Value) (site : Span) :
    Eval Value := do
  let body ← bodyOf m
  if !Overload.accepts m.params args.length then
    fault (Overload.arityFault Method.params [m] args.length)
  let declaring := (o.cls.lineage.find? (·.name == m.owner)).getD o.cls
  let own := if declaring.name == m.owner then o.bindingsAt m.owner else []
  let h ← heap
  let locals := if o.cls.kind == .record then componentValues h o else []
  invoke E
    { name := s!"{o.cls.name}.{m.name}"
      params := m.params
      returns := m.returns
      body := .block body
      closure := m.closure
      receiver := some ⟨o, declaring⟩
      bindings := own ++ boundsOf m.typeParams
      locals := locals } args site

def runStatic (E : Engine) (m : Method) (args : List Value) (site : Span) : Eval Value := do
  let body ← bodyOf m
  invoke E
    { name := s!"{m.owner}.{m.name}"
      params := m.params
      returns := m.returns
      body := .block body
      closure := m.closure
      receiver := none
      bindings := boundsOf m.typeParams
      locals := [] } args site

/-- The candidate for a number of arguments. -/
def selectMethod (candidates : List Method) (argc : Nat) : Eval Method :=
  match Overload.select Method.params candidates argc with
  | some m => pure m
  | none => fault (Overload.arityFault Method.params candidates argc)

/-- What the type parameters of a function stand for in a call.  Type arguments that are left out
are found from the arguments and checked against the bounds; the parameters then stand for their
bounds. -/
def bindingsOfCall (f : Function) (args : List Value) (typeArgs : List TypeExpr) :
    Eval Bindings := do
  if f.typeParams.isEmpty then pure []
  else
    let h ← heap
    let actual :=
      if typeArgs.isEmpty then h.typeArgsFrom f.typeParams f.params args
      else typeArgs.map TypeExpr.canonical
    unlessFault (h.boundFault? f.typeParams actual)
    pure ((f.typeParams.zip actual).map fun p =>
      (p.1.name, if typeArgs.isEmpty then p.1.bound.getD .any else p.2))

def callFunction (E : Engine) (f : Function) (args : List Value) (typeArgs : List TypeExpr)
    (site : Span) : Eval Value := do
  if !Overload.accepts f.params args.length then
    fault (Overload.arityFault Function.params [f] args.length)
  let bs ← bindingsOfCall f args typeArgs
  invoke E
    { name := f.name
      params := f.params
      returns := f.returns
      body := f.body
      closure := f.closure
      receiver := none
      bindings := bs
      locals := [] } args site

/-- Calls what a builtin was given; arguments that a declared function has no parameter for are
left out. -/
def callback (E : Engine) (callee : Value) (args : List Value) : Eval Value :=
  let args :=
    match callee with
    | .function _ f => if Overload.isVariadic f.params then args else args.take f.params.length
    | _ => args
  E.call callee args [] default

/-! ### Construction -/

/-- The type arguments of a new instance: those given, or those found from the arguments. -/
def instanceTypeArgs (c : ClassDef) (given : List TypeExpr) (ps : List Param) (args : List Value) :
    Eval (List TypeExpr) := do
  let expected := c.own.typeParams.length
  if !given.isEmpty then
    let variadic := c.own.typeParams.getLast?.any (·.variadic)
    let fits := if variadic then expected ≤ given.length + 1 else given.length == expected
    if fits then pure (given.map TypeExpr.canonical)
    else
      fault (.type s!"{c.name} expects {expected} type argument(s), got {given.length}")
  else if c.own.typeParams.isEmpty then pure []
  else
    let inferred := (← heap).typeArgsFrom c.own.typeParams ps args
    pure (if areAllAny inferred then [] else inferred)

/-- Gives the fields of a class their first values. -/
def initFieldList (E : Engine) (o : Instance) (bs : Bindings) (env : Env) :
    List FieldDef → Eval Unit
  | [] => pure ()
  | f :: rest => do
    modify (·.beginField f.name env)
    let v ← match f.init with
      | some e => E.eval e env
      | none => pure .nil
    checkOption v f.type bs s!"field '{f.name}' of {o.cls.name}"
    modify (·.fillField o f.name env v)
    initFieldList E o bs env rest

/-- Gives the fields of classes their first values, class by class. -/
def fillFields (E : Engine) (o : Instance) : List ClassDef → Eval Unit
  | [] => pure ()
  | c :: rest => do
    if !c.own.fields.isEmpty then
      let env ← openFrame c.own.closure s!"{c.name}.<init>" (some ⟨o, c⟩)
      initFieldList E o (o.bindingsAt c.name) env c.own.fields
    fillFields E o rest

/-- Gives the fields of an instance their first values, the oldest ancestor's first, and runs the
constructor. -/
def build (E : Engine) (o : Instance) (constructor : Option Method) (args : List Value)
    (site : Span) : Eval Unit := do
  fillFields E o o.cls.lineage.reverse
  match constructor with
  | some m => do
    modify (·.tell o .entered)
    let _ ← runMethod E o m args site
  | none => pure ()
  modify (·.markBuilt o)

/-- Builds an instance, which is then no longer under construction. -/
def construct (E : Engine) (o : Instance) (constructor : Option Method) (args : List Value)
    (site : Span) : Eval Unit := do
  note (.building o constructor)
  afterwards (build E o constructor args site) (·.endConstruction o)

/-- The constructor of a table for a number of arguments; an empty table takes none. -/
def selectConstructor (cls : String) (table : List Method) (argc : Nat) :
    Eval (Option Method) :=
  if table.isEmpty then
    if argc = 0 then pure none else fault (.noConstructor cls argc)
  else
    match Overload.select Method.params table argc with
    | some m => pure (some m)
    | none => fault (.noConstructor cls argc)

/-- The components of a record, each checked against its type. -/
def checkComponents (c : ClassDef) (bs : Bindings) (fields : Assoc Value) :
    List Param → List Value → Eval (Assoc Value)
  | p :: ps, v :: vs => do
    checkOption v p.type bs s!"component '{p.name}' of {c.name}"
    checkComponents c bs (fields.insert p.name v) ps vs
  | _, _ => pure fields

def makeRecord (c : ClassDef) (given : List TypeExpr) (args : List Value) : Eval Value := do
  let components := c.own.components
  if args.length ≠ components.length then
    fault (.arityOf components.length args.length)
  let typeArgs ← instanceTypeArgs c given components args
  unlessFault ((← heap).boundFault? c.own.typeParams typeArgs)
  let fields ← checkComponents c (pairParams c.own.typeParams typeArgs) ∅ components args
  let o ← change fun h => h.newRecord c typeArgs fields
  pure (.object o)

def makeInstance (E : Engine) (c : ClassDef) (given : List TypeExpr) (args : List Value)
    (site : Span) : Eval Value := do
  if c.own.isAbstract then fault (.abstractClass c.name)
  let constructor ← selectConstructor c.name c.effectiveConstructors args.length
  let ps := (constructor.map (·.params)).getD []
  let typeArgs ← instanceTypeArgs c given ps args
  unlessFault ((← heap).boundFault? c.own.typeParams typeArgs)
  let o ← change fun h => h.newObject c typeArgs none
  construct E o constructor args site
  pure (.object o)

def newInstance (E : Engine) (c : ClassDef) (given : List TypeExpr) (args : List Value)
    (site : Span) : Eval Value :=
  match c.kind with
  | .enumeration => fault (.type s!"cannot instantiate enum {c.name}")
  | .record => makeRecord c given args
  | .cls => makeInstance E c given args site

/-- Throws an instance of a declared class with a message, or the message if there is no such
class. -/
def throwNew {α : Type} (E : Engine) (cls message : String) : Eval α := do
  match Registry.cls? (← heap).registry cls with
  | some c =>
    let v ← newInstance E c [] [.str message] default
    throwValue ⟨v, none⟩
  | none => throwValue ⟨.str message, none⟩

/-! ### Texts -/

def entryTexts (E : Engine) (m : KeyedMap) : Eval String := do
  let parts ← m.entries.toList.mapM fun e => do
    let k ← E.text e.1
    let v ← E.text e.2
    pure (k, v)
  pure (Heap.entriesText parts)

/-- The text of a value; objects with a `toString` method without parameters write themselves. -/
def textOf (E : Engine) (v : Value) : Eval String := do
  let h ← heap
  match v with
  | .str s => pure s
  | .object o =>
    match (o.cls.usableMethods "toString").find? (·.params.isEmpty) with
    | some m =>
      match ← runMethod E o m [] default with
      | .str s => pure s
      | other => E.text other
    | none => pure (h.display v)
  | .array id => pure (Heap.itemsText .list (← (h.array id).toList.mapM E.text))
  | .map id => entryTexts E (h.map id)
  | .collection c =>
    match h.collection c.id with
    | .items xs => pure (Heap.itemsText c.kind (← xs.toList.mapM E.text))
    | .entries m => entryTexts E m
  | other => pure (h.display other)

end Eval
end ScriptEngine
