import ScriptEngine.Scope

/-!
# Events

What befalls the evaluation of a program.

* An evaluation, an `Act`, begins and ends, whatever it comes to.
* A call of declared code, an `Invocation`, begins and ends; a frame is entered and left.
* A value is thrown and caught, a fault is raised, a cleanup and a deferred call are made.
-/

namespace ScriptEngine

/-- What leaves an evaluation other than a value. -/
inductive Signal
  | thrown (e : Exception)
  | fault (f : Fault)

/-- How a statement completes. -/
inductive Flow
  | value (v : Value)
  | ret (v : Value)
  | stop
  | next

/-- Something to evaluate: a part of a program in a scope, or the call of a value. -/
inductive Act
  | eval (e : Expr) (env : Env)
  | exec (s : Stmt) (env : Env)
  | block (body : List Stmt) (env : Env)
  | call (callee : Value) (args : List Value) (typeArgs : List TypeExpr) (site : Span)

/-- One call of declared code. -/
structure Invocation where
  /-- The name of the frame, also used in traces. -/
  name : String
  params : List Param
  returns : Option TypeExpr
  body : LambdaBody Expr Stmt
  closure : Env
  receiver : Option Receiver
  bindings : Bindings
  /-- Names that the body sees beside its parameters. -/
  locals : List (String × Value)

/-- What befalls an evaluation. -/
inductive Event
  /-- The evaluation of a part begins, in the code of a frame. -/
  | began (frame : Option ScopeId) (a : Act)
  /-- It ends, whatever its outcome; an expression completes with its value. -/
  | ended (a : Act) (outcome : Except Signal Flow)
  | called (i : Invocation) (args : List Value)
  /-- A call is nested too deep. -/
  | refused (limit : Nat)
  | answered (i : Invocation) (outcome : Except Signal Value)
  /-- An instance is to be constructed, by a constructor if there is one. -/
  | building (o : Instance) (constructor : Option Method)
  /-- The body of a frame begins, for the frame whose code made the call. -/
  | entered (frame : ScopeId) (caller : Option ScopeId)
  /-- The code of a frame defers a call. -/
  | deferred (frame : Option ScopeId) (d : Deferred)
  | stopped (frame : ScopeId)
  | ran (frame : ScopeId) (d : Deferred)
  /-- The outcome of a frame goes to the frame that made the call. -/
  | left (frame : ScopeId) (caller : Option ScopeId)
  | faulted (cause : Cause)
  /-- Another outcome takes the place of a fault. -/
  | superseded (cause : Cause)
  | threw (e : Exception)
  /-- The body of a try begins, with the clauses for what it throws. -/
  | tried (clauses : List (CatchClause Stmt))
  /-- The body of a try ends in another way than by a throw. -/
  | finished
  /-- A clause takes what the body of a try throws. -/
  | caught (e : Exception) (clause : CatchClause Stmt)
  /-- No clause takes what the body of a try throws. -/
  | passed (e : Exception)
  /-- What a cleanup follows begins. -/
  | shielded
  | cleaning
  /-- A cleanup or a deferred call completes. -/
  | cleaned
  /-- A cleanup or a deferred call does not complete; its own outcome goes on. -/
  | overruled
  /-- The calls that were deferred in a frame are to be made. -/
  | due (frame : ScopeId) (defers : List Deferred)
  /-- An executor begins; what it throws rejects its promise. -/
  | executing
  | executed
  | rejected

end ScriptEngine
