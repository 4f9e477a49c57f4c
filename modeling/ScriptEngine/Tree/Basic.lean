import ScriptEngine.Decimal.Double
import ScriptEngine.Source.Span
import ScriptEngine.TypeExpr.Basic

/-!
# Program trees

The trees that programs are read into: expressions, statements and declarations.  Each node carries
the span of its text.  The records of declarations are generic in the expressions and statements
they hold, so that the two families can be tied together in one recursive definition.
-/

namespace ScriptEngine

/-- Prefix operators. -/
inductive UnaryOp
  | negate
  | not
  deriving Repr, DecidableEq, Inhabited

/-- Operators that evaluate both operands. -/
inductive BinaryOp
  | add | subtract | multiply | divide | modulo
  | equal | notEqual | less | lessEqual | greater | greaterEqual
  deriving Repr, DecidableEq, Inhabited

def BinaryOp.symbol : BinaryOp → String
  | add => "+"
  | subtract => "-"
  | multiply => "*"
  | divide => "/"
  | modulo => "%"
  | equal => "=="
  | notEqual => "!="
  | less => "<"
  | lessEqual => "<="
  | greater => ">"
  | greaterEqual => ">="

/-- Operators that evaluate the second operand only when the first leaves the answer open. -/
inductive LogicalOp
  | and
  | or
  deriving Repr, DecidableEq, Inhabited

/-- The ways a name can be bound. -/
inductive BindingKind
  | letBinding
  | varBinding
  | constBinding
  | finalBinding
  deriving Repr, DecidableEq, Inhabited

/-- Whether a binding can never be assigned again. -/
def BindingKind.isImmutable : BindingKind → Bool
  | constBinding | finalBinding => true
  | _ => false

/-- Forms of assignment. -/
inductive AssignOp
  | assign
  | add
  | subtract
  | multiply
  | divide
  deriving Repr, DecidableEq, Inhabited

/-- Who may use a member. -/
inductive Visibility
  | visible
  | hidden
  | guarded
  deriving Repr, DecidableEq, Inhabited

/-- The modifiers of a member. -/
structure Modifiers where
  visibility : Visibility
  isStatic : Bool
  isAbstract : Bool
  deriving Repr, DecidableEq, Inhabited

def Modifiers.plain : Modifiers := ⟨.visible, false, false⟩

/-- A parameter of a function, or a component of a record. -/
structure Param where
  name : String
  type : Option TypeExpr
  variadic : Bool
  span : Span
  deriving Inhabited, Repr

/-- A function declaration over statements `S`. -/
structure FunctionDecl (S : Type) where
  name : String
  typeParams : List TypeParam
  params : List Param
  returns : Option TypeExpr
  body : List S
  span : Span

/-- A field declaration over expressions `E`. -/
structure FieldDecl (E : Type) where
  name : String
  kind : BindingKind
  modifiers : Modifiers
  type : Option TypeExpr
  init : Option E
  span : Span

/-- A method declaration; abstract methods and plain interface methods have no body. -/
structure MethodDecl (S : Type) where
  function : FunctionDecl S
  modifiers : Modifiers
  hasBody : Bool

/-- A constructor declaration. -/
structure ConstructorDecl (S : Type) where
  params : List Param
  body : List S
  span : Span

/-- A catch clause. -/
structure CatchClause (S : Type) where
  binding : Option String
  type : Option TypeExpr
  body : List S
  span : Span

/-- A constant of an enum. -/
structure EnumConstant (E : Type) where
  name : String
  args : List E
  span : Span

/-- A class declaration. -/
structure ClassDecl (E S : Type) where
  name : String
  typeParams : List TypeParam
  parent : Option TypeExpr
  interfaces : List TypeExpr
  isSealed : Bool
  isAbstract : Bool
  permits : List String
  fields : List (FieldDecl E)
  methods : List (MethodDecl S)
  constructors : List (ConstructorDecl S)
  span : Span

/-- An interface declaration; its fields are static. -/
structure InterfaceDecl (E S : Type) where
  name : String
  typeParams : List TypeParam
  parents : List TypeExpr
  isSealed : Bool
  permits : List String
  methods : List (MethodDecl S)
  fields : List (FieldDecl E)
  span : Span

/-- An enum declaration. -/
structure EnumDecl (E S : Type) where
  name : String
  isSealed : Bool
  permits : List String
  interfaces : List TypeExpr
  constants : List (EnumConstant E)
  fields : List (FieldDecl E)
  methods : List (MethodDecl S)
  constructors : List (ConstructorDecl S)
  span : Span

/-- A record declaration. -/
structure RecordDecl (S : Type) where
  name : String
  typeParams : List TypeParam
  components : List Param
  interfaces : List TypeExpr
  methods : List (MethodDecl S)
  span : Span

/-- What a select arm waits for. -/
inductive SelectArm (E : Type)
  | receive (binding : Option String) (channel : E)
  | closed (channel : E)

/-- An arm of a select with its body. -/
structure SelectCase (E S : Type) where
  arm : SelectArm E
  body : List S
  span : Span

/-- What a switch case matches. -/
inductive CasePattern (E : Type)
  | values (values : List E)
  | type (binding : String) (type : TypeExpr)

/-- A case of a switch with its body. -/
structure SwitchCase (E S : Type) where
  pattern : CasePattern E
  body : List S
  span : Span

/-- A part of an interpolated string. -/
inductive StringPart (E : Type)
  | text (value : String)
  | expr (value : E)

/-- The body of a lambda. -/
inductive LambdaBody (E S : Type)
  | expr (value : E)
  | block (body : List S)

mutual

/-- An expression. -/
inductive Expr
  | int (value : Int64) (span : Span)
  | float (value : Decimal.Double) (span : Span)
  | string (value : String) (span : Span)
  | interpolated (parts : List (StringPart Expr)) (span : Span)
  | bool (value : Bool) (span : Span)
  | nil (span : Span)
  | identifier (name : String) (span : Span)
  | this (span : Span)
  | super (span : Span)
  | array (elements : List Expr) (span : Span)
  | map (entries : List (Expr × Expr)) (span : Span)
  | unary (op : UnaryOp) (operand : Expr) (span : Span)
  | binary (op : BinaryOp) (left right : Expr) (span : Span)
  | logical (op : LogicalOp) (left right : Expr) (span : Span)
  | conditional (test yes no : Expr) (span : Span)
  | call (callee : Expr) (typeArgs : List TypeExpr) (args : List Expr) (span : Span)
  | member (object : Expr) (property : String) (span : Span)
  | index (object index : Expr) (span : Span)
  | lambda (params : List Param) (returns : Option TypeExpr) (body : LambdaBody Expr Stmt)
      (span : Span)
  | threadSpawn (body : List Stmt) (span : Span)
  | threadJoin (handle : Expr) (span : Span)
  | channel (element : Option TypeExpr) (capacity : Option Expr) (span : Span)
  | instanceOf (value : Expr) (target : TypeExpr) (span : Span)
  | range (first last : Expr) (span : Span)

/-- A statement. -/
inductive Stmt
  | variable (kind : BindingKind) (name : String) (type : Option TypeExpr) (init : Option Expr)
      (span : Span)
  | assignment (op : AssignOp) (target value : Expr) (span : Span)
  | expression (value : Expr) (span : Span)
  | ret (value : Option Expr) (span : Span)
  | function (decl : FunctionDecl Stmt)
  | branch (test : Expr) (body : List Stmt) (elifs : List (Expr × List Stmt))
      (otherwise : Option (List Stmt)) (span : Span)
  | forIn (bindings : List String) (iterable : Expr) (filter : Option Expr) (body : List Stmt)
      (span : Span)
  | loop (test : Option Expr) (body : List Stmt) (span : Span)
  | stop (span : Span)
  | next (span : Span)
  | attempt (body : List Stmt) (catches : List (CatchClause Stmt)) (cleanup : Option (List Stmt))
      (span : Span)
  | throw (value : Expr) (span : Span)
  | defer (call : Expr) (span : Span)
  | classDecl (decl : ClassDecl Expr Stmt)
  | interfaceDecl (decl : InterfaceDecl Expr Stmt)
  | enumDecl (decl : EnumDecl Expr Stmt)
  | recordDecl (decl : RecordDecl Stmt)
  | select (cases : List (SelectCase Expr Stmt)) (span : Span)
  | switch (subject : Expr) (cases : List (SwitchCase Expr Stmt)) (otherwise : Option (List Stmt))
      (span : Span)
  | importModule (name : String) (localName : Option String) (span : Span)

end

instance : Inhabited Expr := ⟨.nil default⟩

instance : Inhabited Stmt := ⟨.stop default⟩

/-- A whole program. -/
structure Program where
  statements : List Stmt
  span : Span

namespace Expr

def span : Expr → Span
  | int _ s | float _ s | string _ s | interpolated _ s | bool _ s | nil s | identifier _ s
  | this s | super s | array _ s | map _ s | unary _ _ s | binary _ _ _ s | logical _ _ _ s
  | conditional _ _ _ s | call _ _ _ s | member _ _ s | index _ _ s | lambda _ _ _ s
  | threadSpawn _ s | threadJoin _ s | channel _ _ s | instanceOf _ _ s | range _ _ s => s

/-- Whether an expression may stand on the left of an assignment. -/
def isAssignable : Expr → Bool
  | identifier _ _ | member _ _ _ | index _ _ _ => true
  | _ => false

end Expr

def Stmt.span : Stmt → Span
  | .variable _ _ _ _ s | .assignment _ _ _ s | .expression _ s | .ret _ s | .branch _ _ _ _ s
  | .forIn _ _ _ _ s | .loop _ _ s | .stop s | .next s | .attempt _ _ _ s | .throw _ s
  | .defer _ s | .select _ s | .switch _ _ _ s | .importModule _ _ s => s
  | .function d => d.span
  | .classDecl d => d.span
  | .interfaceDecl d => d.span
  | .enumDecl d => d.span
  | .recordDecl d => d.span

end ScriptEngine
