import ScriptEngine.Assoc
import ScriptEngine.Value.Basic

/-!
# Scopes

Names are bound in scopes.  The scopes of a program are kept in one store and known by number; an
`Env` lists the scopes that code can see, innermost first.  The scope of a call has a frame: the
name of the function, the object that a method runs on and the calls that were deferred.

* `lookup`, `declaredType` and `set` all go to the nearest binding of a name.
* A new scope copies the imports of the scope it is opened in, and sees only these.
* `snapshot` flattens all that is visible into one scope of its own.
-/

namespace ScriptEngine

/-- What a name stands for. -/
structure Binding where
  value : Value
  kind : BindingKind
  type : Option TypeExpr

/-- The object that a method runs on, with the class that declares the method. -/
structure Receiver where
  this : Instance
  cls : ClassDef

/-- A call to make when its frame is left. -/
structure Deferred where
  call : Expr
  env : Env
  span : Span

/-- The part of a scope that belongs to a call. -/
structure Frame where
  name : String
  receiver : Option Receiver
  defers : List Deferred

/-- A scope. -/
structure Scope where
  vars : Assoc Binding
  imports : Assoc String
  frame : Option Frame

instance : Inhabited Scope := ⟨⟨∅, ∅, none⟩⟩

/-- All scopes of a program. -/
structure Scopes where
  items : Array Scope

namespace Scopes

instance : Inhabited Scopes := ⟨⟨#[]⟩⟩

def scope (s : Scopes) (id : ScopeId) : Scope := s.items.getD id default

def update (s : Scopes) (id : ScopeId) (f : Scope → Scope) : Scopes := ⟨s.items.modify id f⟩

/-- Adds a scope and gives its number. -/
def add (s : Scopes) (sc : Scope) : ScopeId × Scopes := (s.items.size, ⟨s.items.push sc⟩)

/-- The imports that code sees. -/
def importsOf (s : Scopes) : Env → Assoc String
  | [] => ∅
  | id :: _ => (s.scope id).imports

/-- Opens an outermost scope with the frame of the main program. -/
def root (s : Scopes) : Env × Scopes :=
  let r := s.add ⟨∅, ∅, some ⟨"<main>", none, []⟩⟩
  ([r.1], r.2)

/-- Opens the scope of a block. -/
def child (s : Scopes) (env : Env) : Env × Scopes :=
  let r := s.add ⟨∅, s.importsOf env, none⟩
  (r.1 :: env, r.2)

/-- Opens the scope of a call. -/
def enter (s : Scopes) (env : Env) (name : String) (receiver : Option Receiver) : Env × Scopes :=
  let r := s.add ⟨∅, s.importsOf env, some ⟨name, receiver, []⟩⟩
  (r.1 :: env, r.2)

def define (s : Scopes) (env : Env) (name : String) (b : Binding) : Scopes :=
  match env with
  | [] => s
  | id :: _ => s.update id fun sc => { sc with vars := sc.vars.insert name b }

def bindsHere (s : Scopes) (env : Env) (name : String) : Bool :=
  match env with
  | [] => false
  | id :: _ => (s.scope id).vars.contains name

def resolve (s : Scopes) (name : String) : Env → Option (ScopeId × Binding)
  | [] => none
  | id :: rest =>
    match (s.scope id).vars.find? name with
    | some b => some (id, b)
    | none => resolve s name rest

def lookup (s : Scopes) (env : Env) (name : String) : Option Value :=
  (s.resolve name env).map (·.2.value)

def declaredType (s : Scopes) (env : Env) (name : String) : Option TypeExpr :=
  (s.resolve name env).bind (·.2.type)

def assignFault? (s : Scopes) (env : Env) (name : String) : Option Cause :=
  match s.resolve name env with
  | none => some (.undefinedName name)
  | some (_, b) =>
    match b.kind with
    | .constBinding => some (.immutable "constant" name)
    | .finalBinding => some (.immutable "final variable" name)
    | .letBinding | .varBinding => none

/-- Gives the nearest binding of a name another value. -/
def assign (s : Scopes) (env : Env) (name : String) (v : Value) : Scopes :=
  match s.resolve name env with
  | none => s
  | some (id, b) =>
    s.update id fun sc => { sc with vars := sc.vars.insert name { b with value := v } }

/-- Assigns to the nearest binding of a name, if it may be assigned to. -/
def set (s : Scopes) (env : Env) (name : String) (v : Value) : Except Cause Scopes :=
  match s.assignFault? env name with
  | some c => .error c
  | none => .ok (s.assign env name v)

def importAs (s : Scopes) (env : Env) (localName module : String) : Scopes :=
  match env with
  | [] => s
  | id :: _ => s.update id fun sc => { sc with imports := sc.imports.insert localName module }

def importedAs (s : Scopes) (env : Env) (localName : String) : Option String :=
  (s.importsOf env).find? localName

/-- The nearest scope of a call, with its frame. -/
def innermostFrame (s : Scopes) : Env → Option (ScopeId × Frame)
  | [] => none
  | id :: rest =>
    match (s.scope id).frame with
    | some f => some (id, f)
    | none => innermostFrame s rest

/-- Defers a call until the nearest frame is left. -/
def deferCall (s : Scopes) (env : Env) (d : Deferred) : Scopes :=
  match s.innermostFrame env with
  | none => s
  | some (id, f) =>
    s.update id fun sc => { sc with frame := some { f with defers := f.defers ++ [d] } }

/-- Takes the deferred calls of a frame, in the order they were deferred. -/
def takeDeferred (s : Scopes) (env : Env) : List Deferred × Scopes :=
  match env with
  | [] => ([], s)
  | id :: _ =>
    match (s.scope id).frame with
    | none => ([], s)
    | some f =>
      (f.defers, s.update id fun sc => { sc with frame := some { f with defers := [] } })

def frameName (s : Scopes) (env : Env) : String := (s.innermostFrame env).elim "" (·.2.name)

/-- The object that the nearest method runs on. -/
def receiver (s : Scopes) : Env → Option Receiver
  | [] => none
  | id :: rest =>
    match (s.scope id).frame with
    | some ⟨_, some r, _⟩ => some r
    | _ => receiver s rest

/-- Every visible binding and import in one scope; inner ones hide outer ones. -/
def flatten (s : Scopes) : Env → Assoc Binding × Assoc String
  | [] => (∅, ∅)
  | id :: rest =>
    let outer := flatten s rest
    let sc := s.scope id
    (sc.vars.entries.foldr (fun e m => m.insert e.1 e.2) outer.1,
      sc.imports.entries.foldr (fun e m => m.insert e.1 e.2) outer.2)

/-- Opens an outermost scope with a copy of all that is visible. -/
def snapshot (s : Scopes) (env : Env) : Env × Scopes :=
  let flat := s.flatten env
  let r := s.add ⟨flat.1, flat.2, some ⟨"<thread>", s.receiver env, []⟩⟩
  ([r.1], r.2)

end Scopes
end ScriptEngine
