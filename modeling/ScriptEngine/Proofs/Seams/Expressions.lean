import ScriptEngine.Proofs.Seams.Attempts

/-!
# Expressions where one text meets the next
-/

namespace ScriptEngine
namespace Grammar
namespace Persists

variable {α β : Type} {F : Token → Prop} {k i m : Nat} {b : Prop} {l : Load} {g : Reader}

theorem moving
    {p : Parse α} (hp : Persists F k b l i m p) (hl : l.moves = true) :
    Persists F k b .something i m p :=
  hp.weaken (fun _ => id) (Nat.le_refl k) id (.inr (.inr ⟨rfl, hl⟩))

/-- A look ahead that is not used. -/
theorem unused
    {p : Parse α} {q : Parse β} {o : State → α} (hp : ∀ s, p s = .ok (o s) s)
    (hq : Persists F k b l i m q) :
    Persists F k b l i m (p >>= fun _ => q) :=
  look (c := fun _ => ()) hp (fun _ _ _ => rfl) (fun _ _ _ _ _ _ _ => rfl) fun _ => hq

variable (hg : g.Persists k)
include hg

/-! ### Blocks and parameters -/

theorem optionalType :
    Persists F k b .nothing i i (Grammar.optionalType g) :=
  ifEaten (.mark .colon) rfl (step rfl hg.type.forgive.map).forgive.down (pure none) fun _ _ => rfl

theorem blockRound
    (terminators : List Keyword) (acc : List Stmt) :
    Persists F k False .nothing i i
      (do
        if ← Grammar.atEof then return Round.done acc
        if ← Grammar.atAnyWord terminators then return Round.done acc
        if ← Grammar.eatMark .semicolon then return Round.again acc
        return Round.again (acc ++ [← g.statement])) := by
  refine atEof (fun _ => either (pure _) ?_) .inside
  refine atAnyWord _ (fun _ => either (pure _) ?_) .inside
  refine ifEaten (.mark .semicolon) rfl ?_ ?_ False.elim
  · exact forgive (down (step rfl (pure _)))
  · exact hg.statement.anywhere.forgive.bind fun _ => pure _

theorem block
    (terminators : List Keyword) :
    Persists F k False .nothing i i (Grammar.block g terminators) :=
  repeatRead (blockRound hg terminators) []

/-- The part of the parameters between the parentheses. -/
theorem exists_params :
    ∃ p : Parse (List Param), (∀ i, Persists anything k False .nothing i i p) ∧
      Grammar.params g = (do
        Grammar.expectMark .leftParen
        let ps ← p
        Grammar.expectMark .rightParen
        return ps) := by
  refine ⟨_, fun i => repeatRead (fun ps => ?_) [], rfl⟩
  refine atMark _ (fun _ => either (pure _) ?_) .inside
  refine place (fun start => expectName.forgive.bind fun name => ?_) .inside
  refine (eatMark rfl).bind fun _ => (optionalType hg).bind fun _ => (eatMark rfl).bind fun _ => ?_
  exact either (invalid _ _) (since fun _ => more _)

theorem params :
    Persists F (k + 1) b .something i i (Grammar.params g) := by
  obtain ⟨p, hp, heq⟩ := exists_params hg
  rw [heq]
  refine expectOpening.pay (fun _ => forgive (l := .something) ?_) rfl
  exact (hp (i + 1)).inside (fun _ => expectClosing.paid fun _ => pure _) rfl

theorem arguments :
    Persists F (k + 1) b .something i i (Grammar.arguments g) := by
  refine expectOpening.pay (fun _ => forgive (l := .something) ?_) rfl
  refine (repeatRead (l := .nothing) (fun es => ?_) []).inside
    (fun _ => expectClosing.paid fun _ => pure _) rfl
  refine atMark _ (fun _ => either (pure _) ?_) .inside
  exact hg.expression.forgive.bind fun _ => more _

/-! ### Operators -/

/-- Reads the operand on the right of an operator. -/
theorem operand
    {f : Expr → Span → Expr} (level : Nat) {a : Span} {t : Token} (ht : t.isInner = true) :
    Persists (· = t) k b .something i i
      (do
        Grammar.advance
        let x ← g.operators level
        return (.again (f x (← spanSince a)) : Round Expr Expr)) :=
  (stepOn ht ((hg.operators level).paid fun _ => since fun _ => pure _) rfl).down

theorem operatorTail
    {t : Token} {level : Nat} (e : Expr) (ht : operatorLevel? t = some level) :
    Persists (· = t) k b .something i i (Grammar.operatorTail g e level) := by
  refine front (fun u hu => ?_) (.moving rfl)
  subst hu
  cases u with
  | mark m =>
      cases m with
      | question =>
          have hrest (yes : Expr) : Persists anything k b .something i i
              (do
                Grammar.expectMark .colon
                let no ← g.operators conditionalLevel
                return (.again (.conditional e yes no (← spanSince e.span)) : Round Expr Expr)) :=
            (expectMark rfl).inside
              (fun _ => (hg.operators _).paid fun _ => since fun _ => pure _) rfl
          refine (stepQuestion (hg.expression.inside hrest rfl) ?_).down
          exact fun s a s' hs h => (hg.expression (b := b)).two_le hrest hs trivial h |>.2
      | dotDotDot =>
          exact operand hg _ rfl
      | ampAmp | pipePipe =>
          exact operand hg _ rfl
      | plus | minus | star | slash | percent | equalEqual | bangEqual | less | lessEqual
      | greater | greaterEqual =>
          exact operand hg _ rfl
      | _ =>
          cases ht
  | keyword w =>
      cases w with
      | instanceofKw =>
          exact (stepOn rfl (hg.type.paid fun _ => since fun _ => pure _) rfl).down
      | _ =>
          cases ht
  | _ =>
      cases ht

/-- The type that is asked for stands behind the word. -/
theorem operatorTail_instanceof
    {e : Expr} {level : Nat} {s s' : State} {a : Round Expr Expr} (hs : s.Ends)
    (hfront : s.current.1 = .keyword .instanceofKw)
    (h : Grammar.operatorTail g e level s = .ok a s') :
    s'.Ends ∧ s'.rest.length + 2 ≤ s.rest.length := by
  have hword : Persists (· = .keyword .instanceofKw) k False .something 0 0 Grammar.advance :=
    consumeInner rfl False.elim
  have htype : Persists anything k False .something 0 0
      (do
        let target ← g.type
        return (.again (.instanceOf e target (← spanSince e.span)) : Round Expr Expr)) :=
    hg.type.paid fun _ => since fun _ => pure _
  rw [Grammar.operatorTail, ok_bind (show Grammar.current s = .ok s.current.1 s from rfl),
    hfront] at h
  exact hword.two_le (fun _ => htype) hs hfront h

theorem operatorRound
    (least : Nat) (e : Expr) :
    Persists anything k b .nothing i i (Grammar.operatorRound g least e) := by
  refine frontOr (fun t _ ht => ?_) (fun _ => pure _) fun _ _ _ t hopens hline => ?_
  · cases hlevel : operatorLevel? t with
    | none =>
        exact pure _
    | some level =>
        have htail := (operatorTail (b := b) (i := i) hg e hlevel).forgive
        refine either (pure _) (continuesLine (fun _ => either (pure _) ?_) (.at ht))
        by_cases hword : t = .keyword .instanceofKw
        · subst hword
          refine ifNextOpening (pure _) htail (by rintro _ rfl; rfl) fun s a s' hs hF hlong h => ?_
          obtain ⟨hends, hpair⟩ := operatorTail_instanceof hg hs hF h
          have hpos := hends.length_pos
          omega
        · have hkeyword : t.isKeyword .instanceofKw = false :=
            Bool.eq_false_iff.mpr (hword ∘ Token.isKeyword_iff.mp)
          simp only [hkeyword, Bool.false_and]
          exact unused (peek_ok 1) htail
  · cases hlevel : operatorLevel? t.current.1 with
    | none =>
        rfl
    | some level =>
        dsimp only
        split
        · rfl
        · rw [ok_bind (show Grammar.continuesLine t = .ok t.joinsLine t from rfl), hline]
          rfl

/-- The first operand is read from the whole text, the others from what it leaves. -/
theorem operatorsFrom
    {k' : Nat} (hunary : Persists anything k' b .something i i g.unary) (hk : k' ≤ k + 1)
    (least : Nat) :
    Persists anything k' b .something i i (Grammar.operatorsFrom g least) :=
  hunary.payUpTo (fun e => repeatRead (operatorRound hg least) e) rfl hk

/-! ### Simple expressions -/

/-- Reads the body of a lambda. -/
theorem lambdaBody
    {f : LambdaBody Expr Stmt → Parse Expr}
    (hf : ∀ x, Persists anything k b .nothing i i (f x)) :
    Persists F k b .something i i
      (do
        if ← Grammar.atWord .doKw then
          let opened ← currentSpan
          Grammar.advance
          let statements ← Grammar.block g [.endKw]
          Grammar.closeBlock "do" opened
          f (.block statements)
        else f (← LambdaBody.expr <$> g.expression)) := by
  refine ifWord (place (fun _ => ?_) (.at rfl)) (hg.expression.anywhere.map.paid hf)
    fun _ h => by cases h
  refine down (stepOn rfl ((block hg _).inside (l := .something) (fun _ => ?_) rfl) rfl)
  exact (moving (closeBlock _ _) rfl).paid fun _ => hf _

theorem lambda :
    Persists F (k + 1) b .something i i (Grammar.lambda g) := by
  refine place (fun a => front (fun t _ => ?_) (.moving rfl)) (.moving rfl)
  extract_lets j
  have hj : ∀ ps, Persists anything k b .something i i (j ps) := by
    intro ps
    refine (eatMark rfl).inside (fun _ => ?_) rfl
    refine optional (hg.type.forgive.map.bind fun _ => ?_) ?_
    · refine (expectInner rfl).inside (fun _ => ?_) rfl
      exact lambdaBody hg fun _ => since fun _ => pure _
    · refine (expectInner rfl).inside (fun _ => ?_) rfl
      exact lambdaBody hg fun _ => since fun _ => pure _
  clear_value j
  cases t with
  | identifier name =>
      exact step rfl (hj _).forgive
  | _ =>
      exact (params hg).pay (fun ps => (hj ps).forgive) rfl

theorem arrayLiteral :
    Persists F (k + 1) b .something i i (Grammar.arrayLiteral g) := by
  refine place (fun a => ?_) (.moving rfl)
  refine (expectMark rfl).pay (fun _ => forgive (l := .something) ?_) rfl
  refine (repeatRead (l := .nothing) (fun es => ?_) []).inside
    (fun _ => (expectMark rfl).paid fun _ => since fun _ => pure _) rfl
  refine Persists.atMark _ (fun _ => either (pure _) ?_) .inside
  exact hg.expression.forgive.bind fun _ => more _

theorem mapKey :
    Persists F k False .nothing i i (Grammar.mapKey g) := by
  refine front (fun t _ => ?_) .inside
  cases t with
  | identifier name =>
      refine ifNext (place (fun _ => ?_) (.at rfl)) hg.expression.anywhere.forgive rfl
        (by rintro _ rfl; rfl)
      exact forgive (down (step rfl (pure _)))
  | _ =>
      exact hg.expression.anywhere.forgive

theorem mapLiteral :
    Persists F (k + 1) b .something i i (Grammar.mapLiteral g) := by
  refine place (fun a => ?_) (.moving rfl)
  refine (expectMark rfl).pay (fun _ => forgive (l := .something) ?_) rfl
  refine (repeatRead (l := .nothing) (fun es => ?_) []).inside
    (fun _ => (expectMark rfl).paid fun _ => since fun _ => pure _) rfl
  refine Persists.atMark _ (fun _ => either (pure _) ?_) .inside
  exact (mapKey hg).bind fun _ => (expectMark rfl).forgive.bind fun _ =>
    hg.expression.forgive.bind fun _ => more _

theorem threadExpr :
    Persists F (k + 1) b .something i i (Grammar.threadExpr g) := by
  refine place (fun a => (expectWord rfl).pay (fun _ => ?_) rfl) (.moving rfl)
  refine forgive (l := .something) (ifEaten (.word .joinKw) rfl ?_ ?_ fun _ _ => rfl)
  · exact down (stepOn rfl (hg.unary.paid fun _ => since fun _ => pure _) rfl)
  · refine (expectWord rfl).inside (l := .something) (fun _ => ?_) rfl
    refine (expectWord rfl).inside (l := .something) (fun _ => ?_) rfl
    refine (block hg _).inside (fun _ => ?_) rfl
    exact (moving (closeBlock _ _) rfl).paid fun _ => since fun _ => pure _

theorem channelExpr :
    Persists F (k + 1) b .something i i (Grammar.channelExpr g) := by
  refine place (fun a => (expectWord rfl).pay (fun _ => ?_) rfl) (.moving rfl)
  refine forgive (l := .something) ((eatMark rfl).inside (fun _ => ?_) rfl)
  extract_lets j
  have hj : ∀ element, Persists anything k b .something i i (j element) := by
    intro element
    refine (arguments hg).down.paid fun es => ?_
    exact either (since fun _ => invalid _ _) (since fun _ => pure _)
  clear_value j
  refine either ?_ (hj _)
  exact hg.type.inside (fun _ => (expectMark rfl).forgive.bind fun _ => hj _) rfl

/-- An expression that begins with a name, which stands in front. -/
theorem named
    (name : String) (a : Span) :
    Persists (· = .identifier name) (k + 1) b .something i i (Grammar.named g name a) := by
  refine ifNext (lambda hg) (step rfl (ifMark ?_ (pure _) fun _ _ => rfl)) rfl
    (by rintro _ rfl; rfl)
  refine continuesLine (fun _ => either ?_ (pure _)) (.at rfl)
  refine (callTypeArgs? hg).bind fun x => ?_
  cases x with
  | some typeArgs =>
      exact (arguments hg).down.forgive.bind fun _ => since fun _ => pure _
  | none =>
      exact pure _

/-! ### Parentheses -/

omit hg in
/-- Where a parenthesis in front is closed within the first text, both readings see whether an arrow
follows it. -/
theorem lambdaAhead_eq
    {j : Joint} {s t : State} {c r : List LocatedToken} {x y : Span} (hj : j.Clean)
    (hst : Ahead j s t)
    (hrest : s.rest = (.mark .leftParen, x) :: (c ++ (.mark .rightParen, y) :: r))
    (hcloses : Closes 0 0 c) :
    lambdaAhead 0 t.rest = lambdaAhead 0 s.rest := by
  have hahead (r : List LocatedToken) :
      lambdaAhead 0 ((.mark .leftParen, x) :: (c ++ (.mark .rightParen, y) :: r)) =
        lambdaAhead 1 ((.mark .rightParen, y) :: r) :=
    hcloses 1 _ (Nat.le_refl 1)
  cases hst with
  | @mk done xs d d' n n' r₁ r₁' htext _ _ _ =>
      dsimp only at hrest ⊢
      obtain rfl | ⟨ys, e, rfl⟩ := List.eq_nil_or_concat r
      · rw [show (Token.mark .leftParen, x) :: (c ++ [(Token.mark .rightParen, y)]) =
          ((.mark .leftParen, x) :: c) ++ [(.mark .rightParen, y)] by simp] at hrest
        obtain ⟨-, hlast⟩ := List.append_inj' hrest rfl
        cases hlast
      · rw [List.concat_eq_append, show (Token.mark .leftParen, x) ::
          (c ++ (Token.mark .rightParen, y) :: (ys ++ [e])) =
          ((.mark .leftParen, x) :: (c ++ (.mark .rightParen, y) :: ys)) ++ [e] by simp] at hrest
        obtain ⟨hxs, -⟩ := List.append_inj' hrest rfl
        rw [hxs, List.cons_append, List.append_assoc, List.cons_append, List.cons_append,
          List.append_assoc, List.cons_append, hahead, hahead]
        cases ys with
        | cons u ys =>
            rfl
        | nil =>
            have harrow : (j.first.1.isMark .fatArrow || j.first.1.isMark .arrow) = false := by
              obtain ⟨hfirst, -⟩ | hfresh := hj.seam
              · rw [hfirst]
                rfl
              · have hopens := hfresh.opens
                generalize j.first.1 = u at hopens
                cases u with
                | mark m =>
                    cases m <;> first | rfl | cases hopens
                | _ =>
                    rfl
            exact harrow

omit hg in
/-- The parenthesis in front is closed behind what is read between the two. -/
theorem enclosed
    {p : Parse α} {s s₁ s₂ : State} {a : α} {u : Unit} (hp : Persists anything k False l 0 0 p)
    (hs : s.Ends) (hfront : s.current.1 = .mark .leftParen) (h : p s.advance = .ok a s₁)
    (hclose : Grammar.expectMark .rightParen s₁ = .ok u s₂) :
    ∃ x y c r, s.rest = (.mark .leftParen, x) :: (c ++ (.mark .rightParen, y) :: r) ∧
      Closes 0 0 c := by
  obtain ⟨⟨t, x⟩, v, r, hrest, ht⟩ := hs.rest_eq_cons (hfront ▸ rfl)
  obtain ⟨c, hrest', hends, -, hcloses, -⟩ := hp.spends (hs.advance (hfront ▸ rfl)) trivial h
  obtain ⟨hright, -⟩ := expectMark_ok hclose
  obtain ⟨⟨t', y⟩, v', r', hrest'', ht'⟩ := hends.rest_eq_cons (hright ▸ rfl)
  rw [ht] at hfront
  rw [ht'] at hright
  cases hfront
  cases hright
  refine ⟨x, y, c, v' :: r', ?_, hcloses⟩
  rw [State.advance_eq hrest] at hrest'
  rw [hrest, ← hrest'', ← hrest']

/-- The parenthesis in front is closed by a lambda as well as by an expression in parentheses. -/
theorem parenthesized :
    Persists (· = .mark .leftParen) (k + 1) b .something i i (Grammar.parenthesized g) := by
  have hlambda : Persists (· = .mark .leftParen) (k + 1) b .something i i (Grammar.lambda g) :=
    lambda hg
  have hplain : Persists (· = .mark .leftParen) (k + 1) b .something i i
      (do
        Grammar.advance
        let e ← g.expression
        Grammar.expectMark .rightParen
        return e) := by
    refine (consume rfl (fun h => by cases h) .opening False.elim).payInside (fun _ => ?_) rfl rfl
    exact hg.expression.inside (fun _ => expectClosing.paid fun _ => pure _) rfl
  have hread (s : State) : Grammar.parenthesized g s =
      if lambdaAhead 0 s.rest then Grammar.lambda g s
      else (do
        Grammar.advance
        let e ← g.expression
        Grammar.expectMark .rightParen
        return e : Parse Expr) s := by
    rw [Grammar.parenthesized, ok_bind (show (get : Parse State) s = .ok s s from rfl)]
    split <;> rfl
  have hclosed {s s' : State} {e : Expr} (hs : s.Ends) (hF : s.current.1 = .mark .leftParen)
      (h : Grammar.parenthesized g s = .ok e s') :
      ∃ x y c r, s.rest = (.mark .leftParen, x) :: (c ++ (.mark .rightParen, y) :: r) ∧
        Closes 0 0 c := by
    rw [hread] at h
    split at h
    · rw [Grammar.lambda, ok_bind (show currentSpan s = .ok s.current.2 s from rfl),
        ok_bind (show Grammar.current s = .ok s.current.1 s from rfl), hF] at h
      obtain ⟨p, hp, heq⟩ := exists_params hg
      obtain ⟨ps, s₁, hps, -⟩ := ok_of_bind h
      rw [heq] at hps
      obtain ⟨_, s₂, hopen, hinner⟩ := ok_of_bind hps
      obtain ⟨-, rfl⟩ := expectMark_ok hopen
      obtain ⟨_, s₃, hps', hrest⟩ := ok_of_bind hinner
      obtain ⟨_, s₄, hclose, -⟩ := ok_of_bind hrest
      exact enclosed (hp 0) hs hF hps' hclose
    · obtain ⟨_, s₁, hopen, hinner⟩ := ok_of_bind h
      cases hopen
      obtain ⟨_, s₂, he, hrest⟩ := ok_of_bind hinner
      obtain ⟨_, s₃, hclose, -⟩ := ok_of_bind hrest
      exact enclosed hg.expression hs hF he hclose
  constructor
  · intro s hs hF e s' h
    rw [hread] at h
    split at h
    · exact hlambda.spends hs hF h
    · exact hplain.spends hs hF h
  · intro j hj s t hst hF hweight e s' h hrefused hend
    obtain ⟨x, y, c, r, hrest, hcloses⟩ := hclosed (hst.ends hj) hF h
    rw [hread] at h ⊢
    rw [lambdaAhead_eq hj hst hrest hcloses]
    split at h
    · next hyes =>
        rw [if_pos hyes]
        exact hlambda.follows hj hst hF hweight h hrefused hend
    · next hno =>
        rw [if_neg hno]
        exact hplain.follows hj hst hF hweight h hrefused hend

/-! ### Embedded expressions -/

omit hg in
/-- An embedded expression has a text of its own. -/
theorem embedded
    (ts : List LocatedToken) :
    Persists F k b .nothing i i (Grammar.embedded g ts) := by
  unfold Grammar.embedded
  extract_lets whole
  cases whole (State.ofTokens ts) with
  | ok e _ =>
      exact pure e
  | error e _ =>
      exact throw e

omit hg in
theorem templateParts
    (ps : List TemplatePart) :
    Persists F k b .nothing i i (Grammar.templateParts g ps) := by
  induction ps generalizing F with
  | nil =>
      exact pure []
  | cons p ps ih =>
      cases p with
      | text s =>
          exact ih.bind fun _ => pure _
      | hole ts =>
          exact (embedded ts).bind fun _ => ih.bind fun _ => pure _

/-! ### Whole expressions -/

theorem primary :
    Persists F (k + 1) b .something i i (Grammar.primary g) := by
  refine place (fun a => ?_) (.moving rfl)
  extract_lets literal failHere
  have hliteral {t : Token} (e : Expr) (ht : t.isLast = true) :
      Persists (· = t) (k + 1) b .something i i (literal e) :=
    step ht (pure e)
  have hfail {F : Token → Prop} : Persists F (k + 1) b .something i i failHere :=
    fails fun _ _ _ h => by cases h
  have hfails (s : State) (e : Expr) (s' : State) : failHere s ≠ .ok e s' := fun h => by cases h
  clear_value literal failHere
  refine front (fun t _ => ?_) (.moving rfl)
  cases t with
  | int n =>
      exact hliteral _ rfl
  | float x =>
      exact hliteral _ rfl
  | string s =>
      exact hliteral _ rfl
  | template parts =>
      exact step rfl ((templateParts parts).bind fun _ => pure _)
  | identifier name =>
      exact named hg name a
  | keyword w =>
      cases w with
      | trueKw | falseKw | nilKw | thisKw | superKw =>
          exact hliteral _ rfl
      | instanceofKw =>
          refine ifNextOpening (hliteral _ rfl) hfail (by rintro _ rfl; rfl) ?_
          exact fun s e s' _ _ _ h => absurd h (hfails s e s')
      | threadKw =>
          exact threadExpr hg
      | channelKw =>
          exact channelExpr hg
      | _ =>
          exact hfail
  | mark m =>
      cases m with
      | leftParen =>
          exact parenthesized hg
      | leftBracket =>
          exact arrayLiteral hg
      | leftBrace =>
          exact mapLiteral hg
      | _ =>
          exact hfail
  | eof =>
      exact hfail

theorem accessRound
    (e : Expr) :
    Persists anything k b .nothing i i (Grammar.accessRound g e) := by
  refine frontOr (fun t _ ht => ?_) (fun _ => pure _) fun _ _ _ t hopens hline => ?_
  · cases t with
    | mark m =>
        cases m with
        | dot =>
            refine forgive (down (stepOn rfl (l := .something) ?_ rfl))
            exact accessedName.paid fun _ => since fun _ => pure _
        | leftParen =>
            refine continuesLine (fun _ => either ?_ (pure _)) (.at rfl)
            exact (arguments hg).down.forgive.bind fun _ => since fun _ => pure _
        | leftBracket =>
            refine continuesLine (fun _ => either ?_ (pure _)) (.at rfl)
            refine forgive (down (stepOn rfl (l := .something) ?_ rfl))
            refine hg.expression.inside (fun _ => ?_) rfl
            exact (expectMark rfl).paid fun _ => since fun _ => pure _
        | _ =>
            exact pure _
    | _ =>
        exact pure _
  · have hcontinues : Grammar.continuesLine t = .ok false t := by
      rw [← hline]
      rfl
    generalize t.current.1 = u at hopens
    cases u with
    | mark m =>
        cases m with
        | dot =>
            cases hopens
        | leftParen | leftBracket =>
            dsimp only
            rw [ok_bind hcontinues]
            rfl
        | _ =>
            rfl
    | _ =>
        rfl

theorem access :
    Persists F (k + 1) b .something i i (Grammar.access g) :=
  (primary hg).pay (fun e => repeatRead (accessRound hg) e) rfl

theorem unaryExpr :
    Persists F (k + 1) b .something i i (Grammar.unaryExpr g) := by
  refine place (fun a => front (fun t _ => ?_) (.moving rfl)) (.moving rfl)
  cases t with
  | mark m =>
      cases m with
      | minus | bang =>
          exact (stepOn rfl ((nested hg.unary).paid fun _ => since fun _ => pure _) rfl)
      | _ =>
          exact access hg
  | _ =>
      exact access hg

end Persists
end Grammar
end ScriptEngine
