import Mathlib.Data.List.Forall2
import ScriptEngine.Grammar.Program

/-!
# Programs apart from their places

Two sequences of tokens have the same layout when they hold the same tokens in the same order and
break into lines at the same positions, the tokens of embedded expressions included.  Which line a
token stands on, its column and its offset are left open.

Trees, and errors, are alike when they differ in their spans only.  Each relation has one rule for
each constructor.

* `SameLayout` compares sequences of tokens, `Ordered` says that lines never go back.
* `Expr.Alike` and `Stmt.Alike` compare trees, `Program.SameResult` what comes of reading a program.
-/

namespace ScriptEngine

/-! ### Tokens -/

mutual

/-- The same token, whatever the places of the expressions embedded in it. -/
inductive Token.Alike : Token → Token → Prop
  | keyword (k : Keyword) : Token.Alike (.keyword k) (.keyword k)
  | mark (m : Mark) : Token.Alike (.mark m) (.mark m)
  | int (n : Int64) : Token.Alike (.int n) (.int n)
  | float (x : Decimal.Double) : Token.Alike (.float x) (.float x)
  | string (s : String) : Token.Alike (.string s) (.string s)
  | template {ps qs : List TemplatePart} (hparts : TemplatePart.AllAlike ps qs) :
      Token.Alike (.template ps) (.template qs)
  | identifier (name : String) : Token.Alike (.identifier name) (.identifier name)
  | eof : Token.Alike .eof .eof

/-- The same parts of a template; embedded expressions have the same layout. -/
inductive TemplatePart.AllAlike : List TemplatePart → List TemplatePart → Prop
  | nil : TemplatePart.AllAlike [] []
  | text (s : String) {ps qs : List TemplatePart} (hparts : TemplatePart.AllAlike ps qs) :
      TemplatePart.AllAlike (.text s :: ps) (.text s :: qs)
  | hole {ts us : List (Token × Span)} {ps qs : List TemplatePart} (htokens : SameLayout ts us)
      (hparts : TemplatePart.AllAlike ps qs) :
      TemplatePart.AllAlike (.hole ts :: ps) (.hole us :: qs)

/-- The same tokens in the same order, each on the line of the one before it in both sequences or
in neither. -/
inductive SameLayout : List (Token × Span) → List (Token × Span) → Prop
  | nil : SameLayout [] []
  | single {t u : Token} {a b : Span} (htoken : Token.Alike t u) : SameLayout [(t, a)] [(u, b)]
  | cons {t u t' u' : Token} {a b a' b' : Span} {ts us : List (Token × Span)}
      (htoken : Token.Alike t u) (hline : a'.line = a.line ↔ b'.line = b.line)
      (hrest : SameLayout ((t', a') :: ts) ((u', b') :: us)) :
      SameLayout ((t, a) :: (t', a') :: ts) ((u, b) :: (u', b') :: us)

end

/-- Line numbers never decrease. -/
def Ordered (ts : List LocatedToken) : Prop := ts.Pairwise fun t u => t.2.line ≤ u.2.line

instance (ts : List LocatedToken) : Decidable (Ordered ts) :=
  inferInstanceAs (Decidable (ts.Pairwise fun t u => t.2.line ≤ u.2.line))

theorem Ordered.suffix
    {ts us : List LocatedToken} (h : Ordered us) (hsuffix : ts <:+ us) :
    Ordered ts :=
  h.sublist hsuffix.sublist

/-! ### Trees -/

section Declarations

variable {E S : Type}

inductive Param.Alike : Param → Param → Prop
  | mk {name : String} {type : Option TypeExpr} {variadic : Bool} {a b : Span} :
      Param.Alike ⟨name, type, variadic, a⟩ ⟨name, type, variadic, b⟩

inductive FunctionDecl.Alike (Q : S → S → Prop) : FunctionDecl S → FunctionDecl S → Prop
  | mk {name : String} {typeParams : List TypeParam} {ps qs : List Param}
      {returns : Option TypeExpr} {xs ys : List S} {a b : Span}
      (hparams : List.Forall₂ Param.Alike ps qs) (hbody : List.Forall₂ Q xs ys) :
      FunctionDecl.Alike Q ⟨name, typeParams, ps, returns, xs, a⟩
        ⟨name, typeParams, qs, returns, ys, b⟩

inductive FieldDecl.Alike (R : E → E → Prop) : FieldDecl E → FieldDecl E → Prop
  | mk {name : String} {kind : BindingKind} {modifiers : Modifiers} {type : Option TypeExpr}
      {i j : Option E} {a b : Span} (hinit : Option.Rel R i j) :
      FieldDecl.Alike R ⟨name, kind, modifiers, type, i, a⟩ ⟨name, kind, modifiers, type, j, b⟩

inductive MethodDecl.Alike (Q : S → S → Prop) : MethodDecl S → MethodDecl S → Prop
  | mk {f f' : FunctionDecl S} {modifiers : Modifiers} {hasBody : Bool}
      (hfunction : FunctionDecl.Alike Q f f') :
      MethodDecl.Alike Q ⟨f, modifiers, hasBody⟩ ⟨f', modifiers, hasBody⟩

inductive ConstructorDecl.Alike (Q : S → S → Prop) : ConstructorDecl S → ConstructorDecl S → Prop
  | mk {ps qs : List Param} {xs ys : List S} {a b : Span}
      (hparams : List.Forall₂ Param.Alike ps qs) (hbody : List.Forall₂ Q xs ys) :
      ConstructorDecl.Alike Q ⟨ps, xs, a⟩ ⟨qs, ys, b⟩

inductive CatchClause.Alike (Q : S → S → Prop) : CatchClause S → CatchClause S → Prop
  | mk {binding : Option String} {type : Option TypeExpr} {xs ys : List S} {a b : Span}
      (hbody : List.Forall₂ Q xs ys) :
      CatchClause.Alike Q ⟨binding, type, xs, a⟩ ⟨binding, type, ys, b⟩

inductive EnumConstant.Alike (R : E → E → Prop) : EnumConstant E → EnumConstant E → Prop
  | mk {name : String} {xs ys : List E} {a b : Span} (hargs : List.Forall₂ R xs ys) :
      EnumConstant.Alike R ⟨name, xs, a⟩ ⟨name, ys, b⟩

inductive ClassDecl.Alike (R : E → E → Prop) (Q : S → S → Prop) :
    ClassDecl E S → ClassDecl E S → Prop
  | mk {name : String} {typeParams : List TypeParam} {parent : Option TypeExpr}
      {interfaces : List TypeExpr} {isSealed isAbstract : Bool} {permits : List String}
      {fs fs' : List (FieldDecl E)} {ms ms' : List (MethodDecl S)}
      {cs cs' : List (ConstructorDecl S)} {a b : Span}
      (hfields : List.Forall₂ (FieldDecl.Alike R) fs fs')
      (hmethods : List.Forall₂ (MethodDecl.Alike Q) ms ms')
      (hconstructors : List.Forall₂ (ConstructorDecl.Alike Q) cs cs') :
      ClassDecl.Alike R Q
        ⟨name, typeParams, parent, interfaces, isSealed, isAbstract, permits, fs, ms, cs, a⟩
        ⟨name, typeParams, parent, interfaces, isSealed, isAbstract, permits, fs', ms', cs', b⟩

inductive InterfaceDecl.Alike (R : E → E → Prop) (Q : S → S → Prop) :
    InterfaceDecl E S → InterfaceDecl E S → Prop
  | mk {name : String} {typeParams : List TypeParam} {parents : List TypeExpr} {isSealed : Bool}
      {permits : List String} {ms ms' : List (MethodDecl S)} {fs fs' : List (FieldDecl E)}
      {a b : Span} (hmethods : List.Forall₂ (MethodDecl.Alike Q) ms ms')
      (hfields : List.Forall₂ (FieldDecl.Alike R) fs fs') :
      InterfaceDecl.Alike R Q ⟨name, typeParams, parents, isSealed, permits, ms, fs, a⟩
        ⟨name, typeParams, parents, isSealed, permits, ms', fs', b⟩

inductive EnumDecl.Alike (R : E → E → Prop) (Q : S → S → Prop) :
    EnumDecl E S → EnumDecl E S → Prop
  | mk {name : String} {isSealed : Bool} {permits : List String} {interfaces : List TypeExpr}
      {ks ks' : List (EnumConstant E)} {fs fs' : List (FieldDecl E)} {ms ms' : List (MethodDecl S)}
      {cs cs' : List (ConstructorDecl S)} {a b : Span}
      (hconstants : List.Forall₂ (EnumConstant.Alike R) ks ks')
      (hfields : List.Forall₂ (FieldDecl.Alike R) fs fs')
      (hmethods : List.Forall₂ (MethodDecl.Alike Q) ms ms')
      (hconstructors : List.Forall₂ (ConstructorDecl.Alike Q) cs cs') :
      EnumDecl.Alike R Q ⟨name, isSealed, permits, interfaces, ks, fs, ms, cs, a⟩
        ⟨name, isSealed, permits, interfaces, ks', fs', ms', cs', b⟩

inductive RecordDecl.Alike (Q : S → S → Prop) : RecordDecl S → RecordDecl S → Prop
  | mk {name : String} {typeParams : List TypeParam} {ps qs : List Param}
      {interfaces : List TypeExpr} {ms ms' : List (MethodDecl S)} {a b : Span}
      (hcomponents : List.Forall₂ Param.Alike ps qs)
      (hmethods : List.Forall₂ (MethodDecl.Alike Q) ms ms') :
      RecordDecl.Alike Q ⟨name, typeParams, ps, interfaces, ms, a⟩
        ⟨name, typeParams, qs, interfaces, ms', b⟩

inductive SelectArm.Alike (R : E → E → Prop) : SelectArm E → SelectArm E → Prop
  | receive {binding : Option String} {x y : E} (hchannel : R x y) :
      SelectArm.Alike R (.receive binding x) (.receive binding y)
  | closed {x y : E} (hchannel : R x y) : SelectArm.Alike R (.closed x) (.closed y)

inductive SelectCase.Alike (R : E → E → Prop) (Q : S → S → Prop) :
    SelectCase E S → SelectCase E S → Prop
  | mk {arm arm' : SelectArm E} {xs ys : List S} {a b : Span} (harm : SelectArm.Alike R arm arm')
      (hbody : List.Forall₂ Q xs ys) : SelectCase.Alike R Q ⟨arm, xs, a⟩ ⟨arm', ys, b⟩

inductive CasePattern.Alike (R : E → E → Prop) : CasePattern E → CasePattern E → Prop
  | values {xs ys : List E} (hvalues : List.Forall₂ R xs ys) :
      CasePattern.Alike R (.values xs) (.values ys)
  | type (binding : String) (type : TypeExpr) :
      CasePattern.Alike R (.type binding type) (.type binding type)

inductive SwitchCase.Alike (R : E → E → Prop) (Q : S → S → Prop) :
    SwitchCase E S → SwitchCase E S → Prop
  | mk {pattern pattern' : CasePattern E} {xs ys : List S} {a b : Span}
      (hpattern : CasePattern.Alike R pattern pattern') (hbody : List.Forall₂ Q xs ys) :
      SwitchCase.Alike R Q ⟨pattern, xs, a⟩ ⟨pattern', ys, b⟩

inductive StringPart.Alike (R : E → E → Prop) : StringPart E → StringPart E → Prop
  | text (s : String) : StringPart.Alike R (.text s) (.text s)
  | expr {x y : E} (hvalue : R x y) : StringPart.Alike R (.expr x) (.expr y)

inductive LambdaBody.Alike (R : E → E → Prop) (Q : S → S → Prop) :
    LambdaBody E S → LambdaBody E S → Prop
  | expr {x y : E} (hvalue : R x y) : LambdaBody.Alike R Q (.expr x) (.expr y)
  | block {xs ys : List S} (hbody : List.Forall₂ Q xs ys) :
      LambdaBody.Alike R Q (.block xs) (.block ys)

end Declarations

mutual

/-- Expressions that differ in their spans only. -/
inductive Expr.Alike : Expr → Expr → Prop
  | int {n : Int64} {a b : Span} : Expr.Alike (.int n a) (.int n b)
  | float {x : Decimal.Double} {a b : Span} : Expr.Alike (.float x a) (.float x b)
  | string {s : String} {a b : Span} : Expr.Alike (.string s a) (.string s b)
  | interpolated {ps qs : List (StringPart Expr)} {a b : Span}
      (hparts : List.Forall₂ (StringPart.Alike Expr.Alike) ps qs) :
      Expr.Alike (.interpolated ps a) (.interpolated qs b)
  | bool {v : Bool} {a b : Span} : Expr.Alike (.bool v a) (.bool v b)
  | nil {a b : Span} : Expr.Alike (.nil a) (.nil b)
  | identifier {name : String} {a b : Span} : Expr.Alike (.identifier name a) (.identifier name b)
  | this {a b : Span} : Expr.Alike (.this a) (.this b)
  | super {a b : Span} : Expr.Alike (.super a) (.super b)
  | array {es fs : List Expr} {a b : Span} (helements : List.Forall₂ Expr.Alike es fs) :
      Expr.Alike (.array es a) (.array fs b)
  | map {es fs : List (Expr × Expr)} {a b : Span}
      (hentries : List.Forall₂ (Prod.RProd Expr.Alike Expr.Alike) es fs) :
      Expr.Alike (.map es a) (.map fs b)
  | unary {op : UnaryOp} {e f : Expr} {a b : Span} (h : Expr.Alike e f) :
      Expr.Alike (.unary op e a) (.unary op f b)
  | binary {op : BinaryOp} {e f e' f' : Expr} {a b : Span} (hleft : Expr.Alike e f)
      (hright : Expr.Alike e' f') : Expr.Alike (.binary op e e' a) (.binary op f f' b)
  | logical {op : LogicalOp} {e f e' f' : Expr} {a b : Span} (hleft : Expr.Alike e f)
      (hright : Expr.Alike e' f') : Expr.Alike (.logical op e e' a) (.logical op f f' b)
  | conditional {e f e' f' e'' f'' : Expr} {a b : Span} (htest : Expr.Alike e f)
      (hyes : Expr.Alike e' f') (hno : Expr.Alike e'' f'') :
      Expr.Alike (.conditional e e' e'' a) (.conditional f f' f'' b)
  | call {e f : Expr} {typeArgs : List TypeExpr} {es fs : List Expr} {a b : Span}
      (hcallee : Expr.Alike e f) (hargs : List.Forall₂ Expr.Alike es fs) :
      Expr.Alike (.call e typeArgs es a) (.call f typeArgs fs b)
  | member {e f : Expr} {property : String} {a b : Span} (hobject : Expr.Alike e f) :
      Expr.Alike (.member e property a) (.member f property b)
  | index {e f e' f' : Expr} {a b : Span} (hobject : Expr.Alike e f) (hindex : Expr.Alike e' f') :
      Expr.Alike (.index e e' a) (.index f f' b)
  | lambda {ps qs : List Param} {returns : Option TypeExpr} {x y : LambdaBody Expr Stmt}
      {a b : Span} (hparams : List.Forall₂ Param.Alike ps qs)
      (hbody : LambdaBody.Alike Expr.Alike Stmt.Alike x y) :
      Expr.Alike (.lambda ps returns x a) (.lambda qs returns y b)
  | threadSpawn {xs ys : List Stmt} {a b : Span} (hbody : List.Forall₂ Stmt.Alike xs ys) :
      Expr.Alike (.threadSpawn xs a) (.threadSpawn ys b)
  | threadJoin {e f : Expr} {a b : Span} (hhandle : Expr.Alike e f) :
      Expr.Alike (.threadJoin e a) (.threadJoin f b)
  | channel {element : Option TypeExpr} {e f : Option Expr} {a b : Span}
      (hcapacity : Option.Rel Expr.Alike e f) :
      Expr.Alike (.channel element e a) (.channel element f b)
  | instanceOf {e f : Expr} {target : TypeExpr} {a b : Span} (hvalue : Expr.Alike e f) :
      Expr.Alike (.instanceOf e target a) (.instanceOf f target b)
  | range {e f e' f' : Expr} {a b : Span} (hfirst : Expr.Alike e f) (hlast : Expr.Alike e' f') :
      Expr.Alike (.range e e' a) (.range f f' b)

/-- Statements that differ in their spans only. -/
inductive Stmt.Alike : Stmt → Stmt → Prop
  | variable {kind : BindingKind} {name : String} {type : Option TypeExpr} {e f : Option Expr}
      {a b : Span} (hinit : Option.Rel Expr.Alike e f) :
      Stmt.Alike (.variable kind name type e a) (.variable kind name type f b)
  | assignment {op : AssignOp} {e f e' f' : Expr} {a b : Span} (htarget : Expr.Alike e f)
      (hvalue : Expr.Alike e' f') : Stmt.Alike (.assignment op e e' a) (.assignment op f f' b)
  | expression {e f : Expr} {a b : Span} (hvalue : Expr.Alike e f) :
      Stmt.Alike (.expression e a) (.expression f b)
  | ret {e f : Option Expr} {a b : Span} (hvalue : Option.Rel Expr.Alike e f) :
      Stmt.Alike (.ret e a) (.ret f b)
  | function {d d' : FunctionDecl Stmt} (hdecl : FunctionDecl.Alike Stmt.Alike d d') :
      Stmt.Alike (.function d) (.function d')
  | branch {e f : Expr} {xs ys : List Stmt} {es fs : List (Expr × List Stmt)}
      {os os' : Option (List Stmt)} {a b : Span} (htest : Expr.Alike e f)
      (hbody : List.Forall₂ Stmt.Alike xs ys)
      (helifs : List.Forall₂ (Prod.RProd Expr.Alike (List.Forall₂ Stmt.Alike)) es fs)
      (hotherwise : Option.Rel (List.Forall₂ Stmt.Alike) os os') :
      Stmt.Alike (.branch e xs es os a) (.branch f ys fs os' b)
  | forIn {bindings : List String} {e f : Expr} {e' f' : Option Expr} {xs ys : List Stmt}
      {a b : Span} (hiterable : Expr.Alike e f) (hfilter : Option.Rel Expr.Alike e' f')
      (hbody : List.Forall₂ Stmt.Alike xs ys) :
      Stmt.Alike (.forIn bindings e e' xs a) (.forIn bindings f f' ys b)
  | loop {e f : Option Expr} {xs ys : List Stmt} {a b : Span} (htest : Option.Rel Expr.Alike e f)
      (hbody : List.Forall₂ Stmt.Alike xs ys) : Stmt.Alike (.loop e xs a) (.loop f ys b)
  | stop {a b : Span} : Stmt.Alike (.stop a) (.stop b)
  | next {a b : Span} : Stmt.Alike (.next a) (.next b)
  | attempt {xs ys : List Stmt} {cs cs' : List (CatchClause Stmt)} {zs zs' : Option (List Stmt)}
      {a b : Span} (hbody : List.Forall₂ Stmt.Alike xs ys)
      (hcatches : List.Forall₂ (CatchClause.Alike Stmt.Alike) cs cs')
      (hcleanup : Option.Rel (List.Forall₂ Stmt.Alike) zs zs') :
      Stmt.Alike (.attempt xs cs zs a) (.attempt ys cs' zs' b)
  | throw {e f : Expr} {a b : Span} (hvalue : Expr.Alike e f) :
      Stmt.Alike (.throw e a) (.throw f b)
  | defer {e f : Expr} {a b : Span} (hcall : Expr.Alike e f) :
      Stmt.Alike (.defer e a) (.defer f b)
  | classDecl {d d' : ClassDecl Expr Stmt} (hdecl : ClassDecl.Alike Expr.Alike Stmt.Alike d d') :
      Stmt.Alike (.classDecl d) (.classDecl d')
  | interfaceDecl {d d' : InterfaceDecl Expr Stmt}
      (hdecl : InterfaceDecl.Alike Expr.Alike Stmt.Alike d d') :
      Stmt.Alike (.interfaceDecl d) (.interfaceDecl d')
  | enumDecl {d d' : EnumDecl Expr Stmt} (hdecl : EnumDecl.Alike Expr.Alike Stmt.Alike d d') :
      Stmt.Alike (.enumDecl d) (.enumDecl d')
  | recordDecl {d d' : RecordDecl Stmt} (hdecl : RecordDecl.Alike Stmt.Alike d d') :
      Stmt.Alike (.recordDecl d) (.recordDecl d')
  | select {cs cs' : List (SelectCase Expr Stmt)} {a b : Span}
      (hcases : List.Forall₂ (SelectCase.Alike Expr.Alike Stmt.Alike) cs cs') :
      Stmt.Alike (.select cs a) (.select cs' b)
  | switch {e f : Expr} {cs cs' : List (SwitchCase Expr Stmt)} {os os' : Option (List Stmt)}
      {a b : Span} (hsubject : Expr.Alike e f)
      (hcases : List.Forall₂ (SwitchCase.Alike Expr.Alike Stmt.Alike) cs cs')
      (hotherwise : Option.Rel (List.Forall₂ Stmt.Alike) os os') :
      Stmt.Alike (.switch e cs os a) (.switch f cs' os' b)
  | importModule {name : String} {localName : Option String} {a b : Span} :
      Stmt.Alike (.importModule name localName a) (.importModule name localName b)

end

/-! ### Programs and errors -/

/-- Programs that differ in their spans only. -/
inductive Program.Alike : Program → Program → Prop
  | mk {xs ys : List Stmt} {a b : Span} (hstatements : List.Forall₂ Stmt.Alike xs ys) :
      Program.Alike ⟨xs, a⟩ ⟨ys, b⟩

/-- The same cause, whatever the places in the token that was found. -/
inductive ParseCause.Alike : ParseCause → ParseCause → Prop
  | unexpectedToken {expected : List Expected} {t u : Token} (hfound : t.Alike u) :
      ParseCause.Alike (.unexpectedToken expected t) (.unexpectedToken expected u)
  | unexpectedEof (expected : List Expected) :
      ParseCause.Alike (.unexpectedEof expected) (.unexpectedEof expected)
  | invalid (reason : String) : ParseCause.Alike (.invalid reason) (.invalid reason)
  | assignmentTarget : ParseCause.Alike .assignmentTarget .assignmentTarget
  | unclosedBlock (openedBy : String) :
      ParseCause.Alike (.unclosedBlock openedBy) (.unclosedBlock openedBy)
  | limit (message : String) : ParseCause.Alike (.limit message) (.limit message)

/-- The same error with the same advice, elsewhere. -/
inductive ParseError.Alike : ParseError → ParseError → Prop
  | mk {c c' : ParseCause} {a b : Span} {suggestion : Option String} (hcause : c.Alike c') :
      ParseError.Alike ⟨c, a, suggestion⟩ ⟨c', b, suggestion⟩

theorem ParseError.Alike.ofCause
    {c c' : ParseCause} {a b : Span} (h : c.Alike c') :
    (ParseError.ofCause c a).Alike (.ofCause c' b) := by
  cases h with
  | assignmentTarget =>
      exact .mk .assignmentTarget
  | unclosedBlock openedBy =>
      exact .mk (.unclosedBlock openedBy)
  | unexpectedToken hfound =>
      exact .mk (.unexpectedToken hfound)
  | unexpectedEof expected =>
      exact .mk (.unexpectedEof expected)
  | invalid reason =>
      exact .mk (.invalid reason)
  | limit message =>
      exact .mk (.limit message)

/-- Both readings give programs that are alike, or both fail with as many errors that are alike. -/
inductive Program.SameResult :
    Except (List ParseError) Program → Except (List ParseError) Program → Prop
  | program {p q : Program} (hprogram : p.Alike q) : Program.SameResult (.ok p) (.ok q)
  | errors {es fs : List ParseError} (herrors : List.Forall₂ ParseError.Alike es fs) :
      Program.SameResult (.error es) (.error fs)

end ScriptEngine
