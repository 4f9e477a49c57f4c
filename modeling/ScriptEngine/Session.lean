import ScriptEngine.Builtin.Globals
import ScriptEngine.Eval.Threads
import ScriptEngine.Grammar.Program
import ScriptEngine.Prelude

/-!
# Sessions

A session runs one program after another.  Each sees what the earlier ones have declared, in the
scope of the main program; around it lies the scope of the builtin functions and the prelude.

* `Session.start` gives a fresh session, `reset` makes a session fresh again: what was declared is
  gone, and threads that still wait go on.
* `run` runs the text of a program; it gives the value of the last statement or the `Failure` that
  ended the program.
-/

namespace ScriptEngine

/-- What ends a program other than its value. -/
inductive Failure
  | source (e : SourceError)
  /-- The engine could not go on. -/
  | fault (f : Fault)
  /-- A thrown value was not caught. -/
  | uncaught (message cls : String) (span : Option Span)
  /-- Every thread waits for another one. -/
  | endless

namespace Failure

def text : Failure → String
  | source e => e.text
  | fault f => f.text
  | uncaught message _ _ => s!"Uncaught exception: {message}"
  | endless => (Cause.other "all threads are waiting").text

/-- The failure that a raised signal ends a program with. -/
def ofSignal (h : Heap) : Signal → Failure
  | .thrown e => .uncaught (h.exceptionMessage e) e.value.kindName e.span
  | .fault f => .fault f

end Failure

/-- A session. -/
structure Session where
  heap : Heap
  /-- The scope of the main program. -/
  env : Env
  /-- How deep calls may be nested. -/
  limit : Nat
  waiting : List Waiting

namespace Session

/-- How deep calls may be nested unless a session says otherwise. -/
def defaultLimit : Nat := 512

/-- Runs statements in a scope, and then the calls that they deferred. -/
def runIn (env : Env) (body : List Stmt) : Eval Value := do
  Eval.resultOf (← Eval.leaveFrame Eval.engine env (.block body))

/-- The heap after a program has run in a scope as far as it can; what is no program changes
nothing. -/
def load (env : Env) (h : Heap) : Except SourceError Program → Heap
  | .error _ => h
  | .ok p => (runIn env p.statements (.ofLimit defaultLimit) h).heap?.getD h

/-- Runs the prelude in a scope. -/
def loadPrelude (env : Env) (h : Heap) : Heap := load env h (Program.read preludeSource)

/-- Opens the outermost scope, with the builtin functions. -/
def openOuter (h : Heap) : Env × Heap :=
  let outer := h.scopes.root
  let named := globalValues.foldl
    (fun s g => s.define outer.1 g.1 ⟨g.2, .constBinding, none⟩) outer.2
  (outer.1, { h with scopes := named })

/-- Opens the scope of the main program within a scope. -/
def openMain (env : Env) (h : Heap) : Env × Heap :=
  let inner := h.scopes.enter env "<main>" none
  (inner.1, { h with scopes := inner.2 })

/-- Opens the scopes of a session: one with the builtin functions and the prelude, and within it
the scope of the main program. -/
def openScopes (h : Heap) : Env × Heap :=
  let outer := openOuter h
  openMain outer.1 (loadPrelude outer.1 outer.2)

/-- The scope and the heap of a fresh session. -/
def fresh : Env × Heap := openScopes .empty

def start (limit : Nat) : Session := ⟨fresh.2, fresh.1, limit, []⟩

/-- Makes a session fresh again. -/
def reset (s : Session) : Session :=
  let r := openScopes { s.heap with registry := ∅ }
  { s with env := r.1, heap := r.2 }

def runProgram (s : Session) (p : Program) : Except Failure Value × Session :=
  let first := runIn s.env p.statements (.ofLimit s.limit) s.heap
  match Eval.drive Eval.engine s.limit Eval.fullFuel first s.waiting with
  | some (.ok v, ws, h) => (.ok v, { s with heap := h, waiting := ws })
  | some (.error signal, ws, h) =>
    (.error (.ofSignal h signal), { s with heap := h, waiting := ws })
  | none => (.error .endless, s)

/-- Runs the text of a program. -/
def run (s : Session) (source : String) : Except Failure Value × Session :=
  match Program.read source with
  | .ok p => s.runProgram p
  | .error e => (.error (.source e), s)

/-- The value of a name in the scope of the main program. -/
def lookup (s : Session) (name : String) : Option Value := s.heap.scopes.lookup s.env name

/-- What the programs have printed since it was last taken. -/
def takeOutput (s : Session) : String × Session :=
  (s.heap.output, { s with heap := { s.heap with output := "" } })

end Session
end ScriptEngine
