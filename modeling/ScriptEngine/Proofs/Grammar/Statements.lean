import ScriptEngine.Proofs.Grammar.Declarations

/-!
# Statements in the same layout

Every statement is alike on texts of the same layout.  Where a statement looks at line numbers it
compares those of neighbouring tokens only: behind `return` and `loop`, and behind the colon of a
catch clause.
-/

namespace ScriptEngine
namespace Grammar

/-- Parts of a switch that differ in their spans only. -/
structure SwitchParts.Alike (p q : SwitchParts) : Prop where
  cases : List.Forall₂ (SwitchCase.Alike Expr.Alike Stmt.Alike) p.cases q.cases
  otherwise : Option.Rel (List.Forall₂ Stmt.Alike) p.otherwise q.otherwise

theorem receivedChannel_call
    (object : Expr) (property : String) (typeArgs : List TypeExpr) (args : List Expr)
    (a b : Span) :
    receivedChannel (.call (.member object property a) typeArgs args b) =
      if property = "recv" ∧ args.isEmpty then return object
      else failInvalid "select case must receive with ch.recv()" b := by
  unfold receivedChannel
  split
  · next heq =>
      cases heq
      rfl
  · next hother =>
      rw [if_neg]
      · rfl
      · rintro ⟨rfl, hargs⟩
        rw [List.isEmpty_iff] at hargs
        subst hargs
        exact hother _ _ _ _ rfl

namespace Alongside

variable {g g' : Reader} {c : Prop} {k : Nat}

theorem importStatement :
    Alongside c (k + 1) allOwe Stmt.Alike Grammar.importStatement Grammar.importStatement := by
  refine place fun a b => (expectWord _).paySame fun _ => expectName.same fun name => ?_
  refine current.bind fun t u ht => ?_
  extract_lets -underBinder j j'
  have hj : ∀ localName, Alongside False k noneOwes Stmt.Alike (j localName) (j' localName) :=
    fun _ => since fun _ _ => pure .importModule
  clear_value j j'
  cases ht with
  | identifier name =>
      split
      · exact advance.same fun _ => expectName.someSame.same hj
      · exact same (pure rfl) hj
  | _ =>
      exact same (pure rfl) hj

theorem receivedChannel
    {e f : Expr} (h : e.Alike f) :
    Alongside c k noneOwes Expr.Alike (Grammar.receivedChannel e) (Grammar.receivedChannel f) := by
  cases h with
  | call hcallee hargs =>
      cases hcallee with
      | member hobject =>
          rw [receivedChannel_call, receivedChannel_call, forall₂_isEmpty hargs]
          exact either (pure hobject) (failInvalid _)
      | _ =>
          exact failInvalid _
  | _ =>
      exact failInvalid _

variable (hg : g.Alongside k g')
include hg

/-! ### Simple statements -/

/-- The declaration of a variable; its way of binding stands in front. -/
theorem variableDecl
    (hc : c) :
    Alongside c (k + 1) allOwe Stmt.Alike (Grammar.variableDecl g) (Grammar.variableDecl g') := by
  refine place fun a b => current.bind fun t u ht => ?_
  rw [bindingKindOf_eq ht]
  refine stepDown (expectName.same fun name => (optionalType hg).same fun type => ?_) hc
  refine (initializer hg).bind fun x y hinit => ?_
  have hnone : x.isNone = y.isNone := by
    cases hinit <;> rfl
  rw [hnone]
  exact either (place fun _ _ => invalid _) (since fun _ _ => pure (.variable hinit))

theorem shortDecl :
    Alongside c (k + 1) allOwe Stmt.Alike (Grammar.shortDecl g) (Grammar.shortDecl g') := by
  refine place fun a b => expectName.paySame fun name => (expectMark _).same fun _ => ?_
  exact hg.expression.bind fun _ _ h => since fun _ _ => pure (.variable (.some h))

/-- Its first expression is read from the whole text, the value assigned from what it leaves. -/
theorem expressionStatement
    (hexpression : Alongside False (k + 1) allOwe Expr.Alike g.expression g'.expression) :
    Alongside c (k + 1) allOwe Stmt.Alike (Grammar.expressionStatement g)
      (Grammar.expressionStatement g') := by
  refine place fun a b => hexpression.anywhere.pay fun e f h => current.bind fun t u ht => ?_
  have hop : assignOp? t = assignOp? u := by
    cases ht <;> rfl
  have hassignable : e.isAssignable = f.isAssignable := by
    cases h <;> rfl
  rw [hop, hassignable]
  cases assignOp? u with
  | some op =>
      refine either (advance.same fun _ => ?_) (thrown (.ofCause .assignmentTarget) nofun)
      exact hg.expression.bind fun _ _ hvalue => since fun _ _ => pure (.assignment h hvalue)
  | none =>
      exact since fun _ _ => pure (.expression h)

theorem returnStatement :
    Alongside c (k + 1) allOwe Stmt.Alike (Grammar.returnStatement g) (Grammar.returnStatement g') := by
  refine place fun a b => (expectWord _).paySame fun _ => current.bind fun t u ht => ?_
  refine continuesLine.same fun sameLine => ?_
  rw [ht.endsBlock_eq, ht.isMark_eq]
  refine otherwise hg.expression.some .none fun _ _ h => ?_
  exact since fun _ _ => pure (.ret h)

theorem throwStatement :
    Alongside c (k + 1) allOwe Stmt.Alike (Grammar.throwStatement g) (Grammar.throwStatement g') := by
  refine place fun a b => (expectWord _).paySame fun _ => ?_
  exact hg.expression.bind fun _ _ h => since fun _ _ => pure (.throw h)

theorem deferStatement :
    Alongside c (k + 1) allOwe Stmt.Alike (Grammar.deferStatement g) (Grammar.deferStatement g') := by
  refine place fun a b => (expectWord _).paySame fun _ => ?_
  exact hg.expression.bind fun _ _ h => since fun _ _ => pure (.defer h)

/-! ### Branches and loops -/

/-- A block behind a word that may be missing. -/
theorem optionalBlock
    {γ δ : Type} {Q : γ → δ → Prop} {x : Prop} [Decidable x] {terminators : List Keyword}
    {f : Option (List Stmt) → Parse γ} {f' : Option (List Stmt) → Parse δ}
    (hf : ∀ x y, Option.Rel (List.Forall₂ Stmt.Alike) x y →
      Alongside False k noneOwes Q (f x) (f' y)) :
    Alongside c k noneOwes Q
      (have j := f
      if x then do
        let _ ← Grammar.eatMark .colon
        let x ← Option.some <$> Grammar.block g terminators
        j x
      else Pure.pure none >>= fun x => j x)
      (have j := f'
      if x then do
        let _ ← Grammar.eatMark .colon
        let x ← Option.some <$> Grammar.block g' terminators
        j x
      else Pure.pure none >>= fun x => j x) :=
  either ((eatMark _).same fun _ => (block hg _).some.bind hf)
    ((pure .none).bind hf)

theorem branchStatement :
    Alongside c (k + 1) allOwe Stmt.Alike (Grammar.branchStatement g) (Grammar.branchStatement g') := by
  refine place fun a b => (expectWord _).paySame fun _ => hg.expression.bind fun _ _ htest => ?_
  refine (eatMark _).same fun _ => (block hg _).bind fun _ _ hbody => ?_
  refine bind (gather (R := Prod.RProd Expr.Alike (List.Forall₂ Stmt.Alike)) fun es fs h => ?_)
    fun es fs helifs => ?_
  · refine ifEaten (eatWord _) ?_ (result (.done h) id)
    refine hg.expression.bind fun _ _ htest => (eatMark _).same fun _ => ?_
    exact (block hg _).bind fun _ _ hbody => pure (.again (forall₂_concat h (.intro htest hbody)))
  · refine (eatWord _).same fun _ => optionalBlock hg fun _ _ hotherwise => ?_
    refine (closeBlock _).same fun _ => since fun _ _ => pure ?_
    exact .branch htest hbody helifs hotherwise

theorem forStatement :
    Alongside c (k + 1) allOwe Stmt.Alike (Grammar.forStatement g) (Grammar.forStatement g') := by
  refine place fun a b => (expectWord _).paySame fun _ => expectName.same fun first => ?_
  refine same (repeatSame fun names => ?_) fun bindings => (expectWord _).same fun _ => ?_
  · refine ifEaten (eatMark _) ?_ (result (.done rfl) id)
    exact expectName.same fun _ => pure (.again rfl)
  · refine hg.expression.bind fun _ _ hiterable => (eatWord _).same fun _ => ?_
    refine optional hg.expression.some .none fun _ _ hfilter => (eatMark _).same fun _ => ?_
    refine (block hg _).bind fun _ _ hbody => (closeBlock _).same fun _ => ?_
    exact since fun _ _ => pure (.forIn hiterable hfilter hbody)

theorem loopTest :
    Alongside c k noneOwes (Option.Rel Expr.Alike) (Grammar.loopTest g) (Grammar.loopTest g') := by
  refine continuesLine.same fun _ => either (pure .none) ?_
  refine (atMark _).same fun _ => either (pure .none) (tryRead (e := noneOwes) ?_)
  refine hg.expression.anywhere.bind fun _ _ h => (atMark _).same fun _ => ?_
  exact either (pure (.some h)) (pure .none)

theorem loopStatement :
    Alongside c (k + 1) allOwe Stmt.Alike (Grammar.loopStatement g) (Grammar.loopStatement g') := by
  refine place fun a b => (expectWord _).paySame fun _ => (loopTest hg).bind fun _ _ htest => ?_
  refine (eatMark _).same fun _ => (block hg _).bind fun _ _ hbody => ?_
  exact (closeBlock _).same fun _ => since fun _ _ => pure (.loop htest hbody)

/-! ### Failures -/

theorem catchHeader :
    Alongside c k noneOwes Eq (Grammar.catchHeader g) (Grammar.catchHeader g') := by
  refine continuesLine.same fun _ => either (pure rfl) ?_
  refine (eatMark _).same fun parens => current.bind fun t u ht => ?_
  extract_lets -underBinder j j'
  have hj : ∀ binding, Alongside False k noneOwes Eq (j binding) (j' binding) := by
    intro binding
    refine (atMark _).same fun _ => ?_
    extract_lets -underBinder l
    have hl : ∀ type, Alongside False k noneOwes Eq (l type) (l type) :=
      fun type => either ((expectMark _).same fun _ => pure rfl) (pure rfl)
    clear_value l
    refine either (onward fun a t a' b u b' hline => ?_) (same (pure rfl) hl)
    dsimp only
    rw [hline]
    refine either (advance.same fun _ => hg.type.someSame.same hl) ?_
    exact same (pure rfl) hl
  clear_value j j'
  cases ht with
  | identifier name =>
      exact advance.same fun _ => same (pure rfl) hj
  | _ =>
      exact same (pure rfl) hj

theorem tryStatement :
    Alongside c (k + 1) allOwe Stmt.Alike (Grammar.tryStatement g) (Grammar.tryStatement g') := by
  refine place fun a b => (expectWord _).paySame fun _ => (eatMark _).same fun _ => ?_
  refine (block hg _).bind fun _ _ hbody => ?_
  refine bind (gather (R := CatchClause.Alike Stmt.Alike) fun cs cs' h => ?_)
    fun cs cs' hcatches => ?_
  · refine ifWord (place fun _ _ => ?_) (result (.done h) id)
    refine step ((catchHeader hg).same fun _ => ?_) trivial
    refine (eatMark _).same fun _ => (block hg _).bind fun _ _ hbody => ?_
    exact since fun _ _ => pure (.again (forall₂_concat h (.mk hbody)))
  · refine (eatWord _).same fun _ => optionalBlock hg fun x y hcleanup => ?_
    have hnone : (cs.isEmpty && x.isNone) = (cs'.isEmpty && y.isNone) := by
      cases hcatches <;> cases hcleanup <;> rfl
    rw [hnone]
    refine either (invalid _) ((closeBlock _).same fun _ => since fun _ _ => pure ?_)
    exact .attempt hbody hcatches hcleanup

/-! ### Choices -/

theorem selectArm :
    Alongside c k noneOwes (SelectArm.Alike Expr.Alike) (Grammar.selectArm g)
      (Grammar.selectArm g') := by
  refine (eatWord _).same fun _ => either ?_ ((eatWord _).same fun _ => ?_)
  · exact hg.expression.bind fun _ _ h => pure (.closed h)
  · extract_lets -underBinder j j'
    have hj : ∀ bound, Alongside False k noneOwes (SelectArm.Alike Expr.Alike) (j bound)
        (j' bound) := by
      intro bound
      dsimp -zeta only [j, j']
      extract_lets -underBinder l l'
      have hl : ∀ binding, Alongside False k noneOwes (SelectArm.Alike Expr.Alike) (l binding)
          (l' binding) := by
        intro binding
        refine hg.expression.bind fun _ _ h => (receivedChannel h).bind fun _ _ h => ?_
        exact pure (.receive h)
      clear_value l l'
      refine either (expectName.same fun _ => (expectMark _).same fun _ => ?_) ?_
      · exact same (pure rfl) hl
      · exact same (pure rfl) hl
    clear_value j j'
    exact either (same (pure rfl) hj) ((eatWord _).same hj)

theorem selectStatement :
    Alongside c (k + 1) allOwe Stmt.Alike (Grammar.selectStatement g) (Grammar.selectStatement g') := by
  refine place fun a b => (expectWord _).paySame fun _ => (eatMark _).same fun _ => ?_
  refine bind (gather (R := SelectCase.Alike Expr.Alike Stmt.Alike) fun cs cs' h => ?_)
    fun cs cs' hcases => ?_
  · refine ifWord (place fun _ _ => ?_) (result (.done h) id)
    refine step ((selectArm hg).bind fun _ _ harm => ?_) trivial
    refine (eatMark _).same fun _ => (block hg _).bind fun _ _ hbody => ?_
    exact since fun _ _ => pure (.again (forall₂_concat h (.mk harm hbody)))
  · exact (closeBlock _).same fun _ => since fun _ _ => pure (.select hcases)

theorem casePattern :
    Alongside c k noneOwes (CasePattern.Alike Expr.Alike) (Grammar.casePattern g)
      (Grammar.casePattern g') := by
  refine (atMark _).same fun _ => ?_
  extract_lets -underBinder j j'
  have hj {c : Prop} : ∀ isType, Alongside c k noneOwes (CasePattern.Alike Expr.Alike) (j isType)
      (j' isType) := by
    intro isType
    refine either (advance.same fun _ => expectName.same fun _ => ?_) ?_
    · refine (expectMark _).same fun _ => hg.type.same fun _ => ?_
      exact (expectMark _).same fun _ => pure (.type _ _)
    · refine bind (gather (R := Expr.Alike) fun es fs h => ?_) fun es fs h => pure (.values h)
      exact hg.expression.paid fun _ _ hlast => more (forall₂_concat h hlast)
  clear_value j j'
  refine either ((peek 1).bind fun t u ht => ?_) (same (pure rfl) hj)
  cases ht with
  | identifier name =>
      refine (peek 2).bind fun _ _ hnext => ?_
      rw [hnext.isMark_eq]
      exact same (pure rfl) hj
  | _ =>
      exact same (pure rfl) hj

theorem switchStatement :
    Alongside c (k + 1) allOwe Stmt.Alike (Grammar.switchStatement g) (Grammar.switchStatement g') := by
  refine place fun a b => (expectWord _).paySame fun _ => hg.expression.bind fun _ _ hsubject => ?_
  refine (eatMark _).same fun _ => ?_
  refine bind (repeatRead (R := SwitchParts.Alike) (Q := SwitchParts.Alike) (fun p q h => ?_)
    ⟨.nil, .none⟩) fun p q h => ?_
  · refine ifWord ?_ (ifEaten (eatWord _) ?_ ?_)
    · refine place fun _ _ => step ((casePattern hg).bind fun _ _ hpattern => ?_) trivial
      refine (eatMark _).same fun _ => (block hg _).bind fun _ _ hbody => since fun _ _ => ?_
      exact pure (.again ⟨forall₂_concat h.cases (.mk hpattern hbody), h.otherwise⟩)
    · refine (eatMark _).same fun _ => (block hg _).bind fun _ _ hbody => ?_
      exact pure (.again ⟨h.cases, .some hbody⟩)
    · exact result (.done h) id
  · refine (closeBlock _).same fun _ => since fun _ _ => pure ?_
    exact .switch hsubject h.cases h.otherwise

/-! ### All statements -/

theorem statementHere
    (hexpression : Alongside False (k + 1) allOwe Expr.Alike g.expression g'.expression) :
    Alongside False (k + 1) allOwe Stmt.Alike (Grammar.statementHere g)
      (Grammar.statementHere g') := by
  refine place fun a b => front fun t u ht _ => ?_
  cases ht with
  | keyword w =>
      cases w with
      | letKw | varKw | constKw | finalKw =>
          exact variableDecl hg rfl
      | defKw =>
          refine (functionDecl hg _).pay fun _ _ h => pure ?_
          cases h with
          | intro hdecl _ =>
              exact .function hdecl
      | classKw | abstractKw =>
          exact classDecl hg false
      | interfaceKw =>
          exact interfaceDecl hg false
      | enumKw =>
          exact enumDecl hg false
      | recordKw =>
          exact recordDecl hg
      | sealedKw =>
          exact sealedDecl hg
      | publicKw | privateKw | protectedKw | staticKw =>
          exact stepDown hg.statementHere.forgive rfl
      | ifKw =>
          exact branchStatement hg
      | forKw =>
          exact forStatement hg
      | loopKw =>
          exact loopStatement hg
      | breakKw =>
          exact stepDown (pure .stop) rfl
      | continueKw =>
          exact stepDown (pure .next) rfl
      | returnKw =>
          exact returnStatement hg
      | tryKw =>
          exact tryStatement hg
      | throwKw =>
          exact throwStatement hg
      | deferKw =>
          exact deferStatement hg
      | selectKw =>
          exact selectStatement hg
      | switchKw =>
          exact switchStatement hg
      | importKw =>
          exact importStatement
      | _ =>
          exact expressionStatement hg hexpression
  | identifier name =>
      refine (peek 1).bind fun _ _ hnext => ?_
      rw [hnext.isMark_eq]
      exact either (shortDecl hg) (expressionStatement hg hexpression)
  | _ =>
      exact expressionStatement hg hexpression

end Alongside
end Grammar
end ScriptEngine
