import ScriptEngine.Proofs.Grammar.Alongside

/-!
# Types, parameters and expressions in the same layout

The pieces of the grammar that read types, blocks, parameters and expressions give trees that are
alike on texts of the same layout, provided that the readers they share do on the text that is left
to them.  A piece that is entered with nothing consumed may hand less text on: it pays with the
token that it begins with.
-/

namespace ScriptEngine
namespace Grammar

/-- Two records of readers that cannot tell texts of the same layout apart, up to a weight; every
reader consumes a token. -/
structure Reader.Alongside (k : Nat) (g g' : Reader) : Prop where
  expression : Grammar.Alongside False k allOwe Expr.Alike g.expression g'.expression
  operators : ∀ level,
    Grammar.Alongside False k allOwe Expr.Alike (g.operators level) (g'.operators level)
  unary : Grammar.Alongside False k allOwe Expr.Alike g.unary g'.unary
  statement : Grammar.Alongside False k allOwe Stmt.Alike g.statement g'.statement
  statementHere : Grammar.Alongside False k allOwe Stmt.Alike g.statementHere g'.statementHere
  type : Grammar.Alongside False k allOwe Eq g.type g'.type

namespace Alongside

variable {g g' : Reader} {c : Prop} {k : Nat}

theorem variance :
    Alongside c k noneOwes Eq Grammar.variance Grammar.variance :=
  (eatWord _).same fun _ => either (pure rfl) <|
    (eatWord _).same fun _ => either (pure rfl) (pure rfl)

theorem accessedName :
    Alongside c k allOwe Eq Grammar.accessedName Grammar.accessedName := by
  refine front fun t u h _ => ?_
  rw [← h.memberWord?_eq]
  cases ht : t.memberWord? with
  | some text =>
      refine step (pure rfl) ?_
      cases t with
      | eof =>
          cases ht
      | _ =>
          rfl
  | none =>
      exact expectName

variable (hg : g.Alongside k g')
include hg

/-! ### Types -/

theorem typeList :
    Alongside False k noneOwes Eq (Grammar.typeList g) (Grammar.typeList g') :=
  repeatSame fun _ => hg.type.paidSame fun _ => more rfl

theorem typeArgs :
    Alongside c k noneOwes Eq (Grammar.typeArgs g) (Grammar.typeArgs g') := by
  refine (expectMark _).same fun _ => (atMark _).same fun _ => ?_
  refine otherwise (R := Eq) (typeList hg) rfl fun args args' h => ?_
  exact (expectMark _).same fun _ => pure h

theorem typeAtom :
    Alongside c (k + 1) allOwe Eq (Grammar.typeAtom g) (Grammar.typeAtom g') := by
  refine nested (front fun t u h _ => ?_)
  cases h with
  | mark m =>
      cases m with
      | question =>
          refine stepDown ((eatWord _).same fun _ => either ?_ ?_) rfl
          · exact hg.type.same fun _ => pure rfl
          · refine (eatWord _).same fun _ => either ?_ (pure rfl)
            exact hg.type.same fun _ => pure rfl
      | _ =>
          exact failExpecting _
  | identifier name =>
      refine stepDown ((atMark _).same fun _ => ?_) rfl
      exact optionalSame (typeArgs hg) fun _ => pure rfl
  | keyword w =>
      cases w with
      | nilKw =>
          exact stepDown (pure rfl) rfl
      | _ =>
          exact failExpecting _
  | _ =>
      exact failExpecting _

theorem typeExpr :
    Alongside c (k + 1) allOwe Eq (Grammar.typeExpr g) (Grammar.typeExpr g') := by
  refine (typeAtom hg).paySame fun _ => (atMark _).same fun _ => either ?_ (pure rfl)
  refine repeatSame fun acc => ifEaten (eatMark _) ?_ (result (.done rfl) id)
  exact (typeAtom hg).down.same fun _ => pure (.again rfl)

theorem callTypeArgs? :
    Alongside c k noneOwes (Option.Rel Eq) (Grammar.callTypeArgs? g) (Grammar.callTypeArgs? g') := by
  refine tryRead (e := noneOwes) ((typeArgs hg).same fun args => (atMark _).same fun _ => ?_)
  refine either (continuesLine.same fun _ => either ?_ ?_) ?_
  · exact pure (.some rfl)
  · exact pure .none
  · exact pure .none

theorem typeParam :
    Alongside c k allOwe Eq (Grammar.typeParam g) (Grammar.typeParam g') := by
  refine variance.same fun _ => expectName.paidSame fun _ => (eatWord _).same fun _ => ?_
  exact optionalSame hg.type.someSame fun _ => (eatMark _).same fun _ => pure rfl

theorem typeParams :
    Alongside c k noneOwes Eq (Grammar.typeParams g) (Grammar.typeParams g') := by
  refine (expectMark _).same fun _ => ?_
  refine same (repeatSame fun _ => (typeParam hg).paidSame fun _ => more rfl) fun _ => ?_
  exact (expectMark _).same fun _ => pure rfl

theorem optionalTypeParams :
    Alongside c k noneOwes Eq (Grammar.optionalTypeParams g) (Grammar.optionalTypeParams g') := by
  refine (atMark _).same fun _ => either ?_ (pure rfl)
  refine (tryRead (typeParams hg).some).bind fun x y h => pure ?_
  cases h with
  | some h =>
      exact h
  | none =>
      rfl

theorem optionalType :
    Alongside c k noneOwes Eq (Grammar.optionalType g) (Grammar.optionalType g') :=
  (eatMark _).same fun _ => either hg.type.someSame (pure rfl)

/-! ### Blocks and parameters -/

theorem block
    (terminators : List Keyword) :
    Alongside c k noneOwes (List.Forall₂ Stmt.Alike) (Grammar.block g terminators)
      (Grammar.block g' terminators) := by
  refine gather fun xs ys h => atEof.same fun _ => either (result (.done h) id) ?_
  refine (atAnyWord _).same fun _ => either (result (.done h) id) ?_
  refine ifEaten (eatMark _) (pure (.again h)) ?_
  exact hg.statement.paid fun _ _ hlast => pure (.again (forall₂_concat h hlast))

theorem params :
    Alongside c (k + 1) allOwe (List.Forall₂ Param.Alike) (Grammar.params g)
      (Grammar.params g') := by
  refine (expectMark _).paySame fun _ => ?_
  refine bind (gather fun ps qs h => ?_) fun ps qs h => (expectMark _).same fun _ => pure h
  refine (atMark _).same fun _ => either (result (.done h) id) ?_
  refine place fun a b => expectName.paidSame fun name => (eatMark _).same fun dotsFirst => ?_
  refine (optionalType hg).same fun type => (eatMark _).same fun dotsLast => ?_
  have hvariadic : (ps.getLast?.map Param.variadic).getD false =
      (qs.getLast?.map Param.variadic).getD false := by
    have hlast := forall₂_getLast? h
    generalize ps.getLast? = x at hlast
    generalize qs.getLast? = y at hlast
    cases hlast with
    | none =>
        rfl
    | some hlast =>
        cases hlast
        rfl
  rw [hvariadic]
  exact either (invalid _) (since fun _ _ => more (forall₂_concat h .mk))

theorem arguments :
    Alongside c (k + 1) allOwe (List.Forall₂ Expr.Alike) (Grammar.arguments g)
      (Grammar.arguments g') := by
  refine (expectMark _).paySame fun _ => ?_
  refine bind (gather fun es fs h => ?_) fun es fs h => (expectMark _).same fun _ => pure h
  refine (atMark _).same fun _ => either (result (.done h) id) ?_
  exact hg.expression.paid fun _ _ hlast => more (forall₂_concat h hlast)

/-! ### Operators -/

/-- Reads the operand on the right of an operator. -/
theorem operand
    {f f' : Expr → Span → Expr} (level : Nat) {a b : Span}
    (hf : ∀ {x y : Expr} {a b : Span}, x.Alike y → (f x a).Alike (f' y b)) (hc : c) :
    Alongside c k Round.GoesOn (Round.Alike Expr.Alike Expr.Alike)
      (do
        Grammar.advance
        let x ← g.operators level
        return .again (f x (← spanSince a)))
      (do
        Grammar.advance
        let y ← g'.operators level
        return .again (f' y (← spanSince b))) :=
  step ((hg.operators _).bind fun _ _ h => since fun _ _ => pure (.again (hf h))) hc

theorem operatorTail
    {e f : Expr} (h : e.Alike f) (level : Nat) :
    Alongside c k Round.GoesOn (Round.Alike Expr.Alike Expr.Alike) (Grammar.operatorTail g e level)
      (Grammar.operatorTail g' f level) := by
  refine front fun t u ht _ => ?_
  cases ht with
  | mark m =>
      cases m with
      | question =>
          refine step (hg.expression.bind fun _ _ hyes => (expectMark _).same fun _ => ?_) rfl
          refine (hg.operators _).bind fun _ _ hno => since fun _ _ => ?_
          exact pure (.again (.conditional h hyes hno))
      | dotDotDot =>
          exact operand hg _ (.range h) rfl
      | ampAmp | pipePipe =>
          exact operand hg _ (.logical h) rfl
      | plus | minus | star | slash | percent | equalEqual | bangEqual | less | lessEqual
      | greater | greaterEqual =>
          exact operand hg _ (.binary h) rfl
      | _ =>
          exact result (.done h) id
  | keyword w =>
      cases w with
      | instanceofKw =>
          refine step (hg.type.same fun _ => ?_) rfl
          exact since fun _ _ => pure (.again (.instanceOf h))
      | _ =>
          exact result (.done h) id
  | _ =>
      exact result (.done h) id

theorem operatorRound
    (least : Nat) {e f : Expr} (h : e.Alike f) :
    Alongside c k Round.GoesOn (Round.Alike Expr.Alike Expr.Alike) (Grammar.operatorRound g least e)
      (Grammar.operatorRound g' least f) := by
  refine current.bind fun t u ht => ?_
  have hlevel : operatorLevel? t = operatorLevel? u := by
    cases ht <;> rfl
  rw [hlevel, ht.isKeyword_eq]
  cases operatorLevel? u with
  | none =>
      exact result (.done h) id
  | some level =>
      refine either (result (.done h) id) (continuesLine.same fun _ => ?_)
      refine either (result (.done h) id) ?_
      refine (peek 1).bind fun _ _ hnext => ?_
      rw [hnext.isMark_eq]
      exact either (result (.done h) id) (operatorTail hg h level)

/-- The first operand is read from the whole text, the others from what it leaves. -/
theorem operatorsFrom
    (hunary : Alongside False (k + 1) allOwe Expr.Alike g.unary g'.unary) (least : Nat) :
    Alongside False (k + 1) allOwe Expr.Alike (Grammar.operatorsFrom g least)
      (Grammar.operatorsFrom g' least) :=
  hunary.pay fun _ _ h => repeatRead (fun _ _ h => operatorRound hg least h) h

/-! ### Simple expressions -/

/-- Reads the body of a lambda. -/
theorem lambdaBody
    {f f' : LambdaBody Expr Stmt → Parse Expr}
    (hf : ∀ x y, LambdaBody.Alike Expr.Alike Stmt.Alike x y →
      Alongside False k noneOwes Expr.Alike (f x) (f' y)) :
    Alongside False k noneOwes Expr.Alike
      (do
        if ← Grammar.atWord .doKw then
          let opened ← currentSpan
          Grammar.advance
          let statements ← Grammar.block g [.endKw]
          Grammar.closeBlock "do" opened
          f (.block statements)
        else f (← LambdaBody.expr <$> g.expression))
      (do
        if ← Grammar.atWord .doKw then
          let opened ← currentSpan
          Grammar.advance
          let statements ← Grammar.block g' [.endKw]
          Grammar.closeBlock "do" opened
          f' (.block statements)
        else f' (← LambdaBody.expr <$> g'.expression)) := by
  refine (atWord _).same fun _ => either ?_ ?_
  · refine place fun _ _ => advance.same fun _ => (block hg _).bind fun _ _ h => ?_
    exact (closeBlock _).same fun _ => hf _ _ (.block h)
  · exact (hg.expression.map fun _ _ h => .expr h).bind hf

theorem lambda :
    Alongside c (k + 1) allOwe Expr.Alike (Grammar.lambda g) (Grammar.lambda g') := by
  refine place fun a b => front fun t u ht _ => ?_
  extract_lets j j'
  have hj : ∀ ps qs, List.Forall₂ Param.Alike ps qs →
      Alongside False k noneOwes Expr.Alike (j ps) (j' qs) := by
    intro ps qs hparams
    refine (eatMark _).same fun _ => optionalSame hg.type.someSame fun _ => ?_
    refine (expectMark _).same fun _ => lambdaBody hg fun _ _ hbody => ?_
    exact since fun _ _ => pure (.lambda hparams hbody)
  clear_value j j'
  cases ht with
  | identifier name =>
      exact stepDown ((pure (.cons .mk .nil)).bind hj) rfl
  | _ =>
      exact (params hg).pay hj

theorem arrayLiteral :
    Alongside c (k + 1) allOwe Expr.Alike (Grammar.arrayLiteral g) (Grammar.arrayLiteral g') := by
  refine place fun a b => (expectMark _).paySame fun _ => ?_
  refine bind (gather (R := Expr.Alike) fun es fs h => ?_) fun es fs h => ?_
  · refine (atMark _).same fun _ => either (result (.done h) id) ?_
    exact hg.expression.paid fun _ _ hlast => more (forall₂_concat h hlast)
  · exact (expectMark _).same fun _ => since fun _ _ => pure (.array h)

theorem mapKey :
    Alongside False k allOwe Expr.Alike (Grammar.mapKey g) (Grammar.mapKey g') := by
  refine front fun t u ht _ => ?_
  cases ht with
  | identifier name =>
      refine (peek 1).bind fun _ _ hnext => ?_
      rw [hnext.isMark_eq]
      exact either (place fun _ _ => step (pure .string) rfl) hg.expression.anywhere
  | _ =>
      exact hg.expression.anywhere

theorem mapLiteral :
    Alongside c (k + 1) allOwe Expr.Alike (Grammar.mapLiteral g) (Grammar.mapLiteral g') := by
  refine place fun a b => (expectMark _).paySame fun _ => ?_
  refine bind (gather (R := Prod.RProd Expr.Alike Expr.Alike) fun es fs h => ?_) fun es fs h => ?_
  · refine (atMark _).same fun _ => either (result (.done h) id) ?_
    refine (mapKey hg).paid fun _ _ hkey => (expectMark _).same fun _ => ?_
    exact hg.expression.bind fun _ _ hvalue => more (forall₂_concat h (.intro hkey hvalue))
  · exact (expectMark _).same fun _ => since fun _ _ => pure (.map h)

theorem threadExpr :
    Alongside c (k + 1) allOwe Expr.Alike (Grammar.threadExpr g) (Grammar.threadExpr g') := by
  refine place fun a b => (expectWord _).paySame fun _ => (eatWord _).same fun _ => either ?_ ?_
  · exact hg.unary.bind fun _ _ h => since fun _ _ => pure (.threadJoin h)
  · refine (expectWord _).same fun _ => (expectWord _).same fun _ => ?_
    refine (block hg _).bind fun _ _ h => (closeBlock _).same fun _ => ?_
    exact since fun _ _ => pure (.threadSpawn h)

theorem channelExpr :
    Alongside c (k + 1) allOwe Expr.Alike (Grammar.channelExpr g) (Grammar.channelExpr g') := by
  refine place fun a b => (expectWord _).paySame fun _ => (eatMark _).same fun _ => ?_
  extract_lets j j'
  have hj : ∀ element, Alongside False k noneOwes Expr.Alike (j element) (j' element) := by
    intro element
    refine (arguments hg).down.bind fun es fs h => ?_
    have hlast := forall₂_getLast? h
    rw [h.length_eq]
    exact either (since fun _ _ => invalid _) (since fun _ _ => pure (.channel hlast))
  clear_value j j'
  refine either ?_ (hj _)
  exact hg.type.same fun _ => (expectMark _).same fun _ => hj _

/-- An expression that begins with a name, which stands in front. -/
theorem named
    (name : String) {a b : Span} (hc : c) :
    Alongside c (k + 1) allOwe Expr.Alike (Grammar.named g name a) (Grammar.named g' name b) := by
  refine (peek 1).bind fun _ _ hnext => ?_
  rw [hnext.isMark_eq]
  refine either (lambda hg) (stepDown ((atMark _).same fun _ => ?_) hc)
  refine either (continuesLine.same fun _ => either ?_ (pure .identifier)) (pure .identifier)
  refine (callTypeArgs? hg).bind fun x y h => ?_
  cases h with
  | some h =>
      subst h
      refine (arguments hg).down.bind fun _ _ hargs => ?_
      exact since fun _ _ => pure (.call .identifier hargs)
  | none =>
      exact pure .identifier

/-- An expression that begins with a parenthesis, which stands in front. -/
theorem parenthesized
    (hc : c) :
    Alongside c (k + 1) allOwe Expr.Alike (Grammar.parenthesized g) (Grammar.parenthesized g') := by
  refine get.bind fun s t hst => ?_
  rw [lambdaAhead_eq hst.layout]
  refine either (lambda hg) (stepDown (hg.expression.bind fun _ _ h => ?_) hc)
  exact (expectMark _).same fun _ => pure h

/-! ### Embedded expressions -/

/-- An embedded expression has a text of its own. -/
theorem embedded
    {ts us : List LocatedToken} (h : SameLayout ts us) (hk : tokensWeight ts < k) :
    Alongside c k noneOwes Expr.Alike (Grammar.embedded g ts) (Grammar.embedded g' us) := by
  unfold Grammar.embedded
  extract_lets whole whole'
  have hwhole : Alongside False k noneOwes Expr.Alike whole whole' := by
    refine hg.expression.bind fun _ _ h => atEof.same fun _ => either (pure h) ?_
    exact (failExpecting (e := noneOwes) _).same fun _ => pure h
  clear_value whole whole'
  have hinner := hwhole (State.Alike.ofTokens h) (Nat.le_trans (State.weight_ofTokens ts) hk)
    False.elim
  generalize whole (State.ofTokens ts) = x at hinner
  generalize whole' (State.ofTokens us) = y at hinner
  cases hinner with
  | ok hresult _ _ =>
      exact pure hresult
  | error herror hbound _ =>
      exact throw herror hbound

theorem templateParts
    {ps qs : List TemplatePart} (h : TemplatePart.AllAlike ps qs) (hk : partsWeight ps ≤ k) :
    Alongside c k noneOwes (List.Forall₂ (StringPart.Alike Expr.Alike)) (Grammar.templateParts g ps)
      (Grammar.templateParts g' qs) := by
  induction ps generalizing c qs with
  | nil =>
      cases h
      exact pure .nil
  | cons p ps ih =>
      rw [partsWeight] at hk
      cases h with
      | text s hparts =>
          refine (ih hparts (by omega)).bind fun _ _ hrest => pure (.cons (.text s) hrest)
      | hole htokens hparts =>
          rw [partWeight] at hk
          refine (embedded hg htokens (by omega)).bind fun _ _ he => ?_
          exact (ih hparts (by omega)).bind fun _ _ hrest => pure (.cons (.expr he) hrest)

/-! ### Whole expressions -/

theorem primary :
    Alongside c (k + 1) allOwe Expr.Alike (Grammar.primary g) (Grammar.primary g') := by
  refine place fun a b => ?_
  have hliteral {c : Prop} {e f : Expr} (h : e.Alike f) (hc : c) :
      Alongside c (k + 1) allOwe Expr.Alike
        (do Grammar.advance; return e) (do Grammar.advance; return f) :=
    stepDown (pure h) hc
  have hfail {c : Prop} : Alongside c (k + 1) allOwe Expr.Alike
      (do
        let e ← Grammar.unexpected [.name]
        MonadExcept.throw { e with suggestion := Option.some "Expected an expression" })
      (do
        let e ← Grammar.unexpected [.name]
        MonadExcept.throw { e with suggestion := Option.some "Expected an expression" }) := by
    refine (unexpected _).bind fun _ _ ⟨h, hbound⟩ => throw ?_ hbound
    cases h with
    | mk hcause =>
        exact .mk hcause
  refine front fun t u ht hk => ?_
  cases ht with
  | int n =>
      exact hliteral .int rfl
  | float x =>
      exact hliteral .float rfl
  | string s =>
      exact hliteral .string rfl
  | template hparts =>
      rw [tokenWeight] at hk
      refine stepDown ((templateParts hg hparts (by omega)).bind fun _ _ h => ?_) rfl
      exact pure (.interpolated h)
  | identifier name =>
      exact named hg name rfl
  | keyword w =>
      cases w with
      | trueKw | falseKw =>
          exact hliteral .bool rfl
      | nilKw =>
          exact hliteral .nil rfl
      | thisKw =>
          exact hliteral .this rfl
      | superKw =>
          exact hliteral .super rfl
      | instanceofKw =>
          refine (peek 1).bind fun _ _ hnext => ?_
          rw [hnext.isMark_eq]
          exact either (hliteral .identifier rfl) hfail
      | threadKw =>
          exact threadExpr hg
      | channelKw =>
          exact channelExpr hg
      | _ =>
          exact hfail
  | mark m =>
      cases m with
      | leftParen =>
          exact parenthesized hg rfl
      | leftBracket =>
          exact arrayLiteral hg
      | leftBrace =>
          exact mapLiteral hg
      | _ =>
          exact hfail
  | eof =>
      exact hfail

theorem accessRound
    {e f : Expr} (h : e.Alike f) :
    Alongside c k Round.GoesOn (Round.Alike Expr.Alike Expr.Alike) (Grammar.accessRound g e)
      (Grammar.accessRound g' f) := by
  refine front fun t u ht _ => ?_
  cases ht with
  | mark m =>
      cases m with
      | dot =>
          refine step (accessedName.same fun _ => ?_) rfl
          exact since fun _ _ => pure (.again (.member h))
      | leftParen =>
          refine continuesLine.same fun _ => either ?_ (result (.done h) id)
          refine (arguments hg).down.paid fun _ _ hargs => ?_
          exact since fun _ _ => pure (.again (.call h hargs))
      | leftBracket =>
          refine continuesLine.same fun _ => either ?_ (result (.done h) id)
          refine step (hg.expression.bind fun _ _ hindex => ?_) rfl
          exact (expectMark _).same fun _ => since fun _ _ => pure (.again (.index h hindex))
      | _ =>
          exact result (.done h) id
  | _ =>
      exact result (.done h) id

theorem access :
    Alongside c (k + 1) allOwe Expr.Alike (Grammar.access g) (Grammar.access g') :=
  (primary hg).pay fun _ _ h => repeatRead (fun _ _ h => accessRound hg h) h

theorem unaryExpr :
    Alongside c (k + 1) allOwe Expr.Alike (Grammar.unaryExpr g) (Grammar.unaryExpr g') := by
  refine place fun a b => front fun t u ht _ => ?_
  cases ht with
  | mark m =>
      cases m with
      | minus | bang =>
          refine stepDown ((nested hg.unary).bind fun _ _ h => ?_) rfl
          exact since fun _ _ => pure (.unary h)
      | _ =>
          exact access hg
  | _ =>
      exact access hg

end Alongside
end Grammar
end ScriptEngine
