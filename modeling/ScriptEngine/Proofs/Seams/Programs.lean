import ScriptEngine.Proofs.Grammar.Progress
import ScriptEngine.Proofs.Seams.Statements
import ScriptEngine.Proofs.Tokens.Lines

/-!
# One program after another

The readers that call each other persist, all of them (`readers_persists`).  So a source reads behind
another one, on the lines below it, as both do alone (`Program.read_lines`).

There are three exceptions.  The local name of an import and the bound of a wildcard are taken from
the next line (`Absorbs`), and a reader that was refused leaves a level open for the lines that follow
(`Program.LeavesNoLevel`).
-/

namespace ScriptEngine
namespace Grammar

variable {g : Reader} {s : State} {p q : Parse Stmt} {k : Nat} {t u : State}
variable {xs : List Stmt} {es : List ParseError}

/-! ### Where no expression begins -/

theorem primary_bars
    (h : s.current.1.begins = false) :
    ∃ e, primary g s = .error e s := by
  rw [primary, ok_bind (show currentSpan s = .ok s.current.2 s from rfl),
    ok_bind (show current s = .ok s.current.1 s from rfl)]
  generalize s.current.1 = u at h
  cases u with
  | keyword w =>
      cases w <;> first | exact ⟨_, rfl⟩ | cases h
  | mark m =>
      cases m <;> first | exact ⟨_, rfl⟩ | cases h
  | eof =>
      exact ⟨_, rfl⟩
  | _ =>
      cases h

theorem unaryExpr_bars
    (h : s.current.1.begins = false) :
    ∃ e, unaryExpr g s = .error e s := by
  obtain ⟨e, he⟩ := primary_bars (g := g) h
  have haccess : access g s = .error e s := error_bind he
  refine ⟨e, ?_⟩
  rw [unaryExpr, ok_bind (show currentSpan s = .ok s.current.2 s from rfl),
    ok_bind (show current s = .ok s.current.1 s from rfl)]
  generalize s.current.1 = u at h
  cases u with
  | mark m =>
      cases m <;> first | exact haccess | cases h
  | _ =>
      exact haccess

theorem expression_rejects
    {t : State} (hbars : ∀ s : State, s.current.1.begins = false → ∃ e, g.unary s = .error e s)
    (hs : s.current.1.begins = false) (hcurrent : t.current.1 = s.current.1)
    (hdepth : t.depth ≤ s.depth) :
    (∃ e, g.over.expression t = .error e t) ∨
      s.refused < (endState (g.over.expression s)).refused := by
  have hread (s : State) : g.over.expression s = nested (expressionHere g) s := rfl
  rw [hread, hread, nested_apply, nested_apply]
  by_cases hlimit : maxDepth < s.depth + 1
  · rw [if_pos hlimit]
    exact .inr (Nat.lt_succ_self _)
  · refine .inl ?_
    obtain ⟨e, he⟩ := hbars { t with depth := t.depth + 1 } (hcurrent ▸ hs)
    rw [if_neg (by omega), show expressionHere g _ = .error e _ from error_bind he]
    exact ⟨e, rfl⟩

/-! ### A statement that begins with an expression -/

/-- A name before the mark of a short declaration is an expression of its own. -/
theorem unaryExpr_short
    {name : String} {a c : Span} {r : List LocatedToken}
    (hrest : s.rest = (.identifier name, a) :: (.mark .colonEqual, c) :: r) :
    unaryExpr g s = .ok (.identifier name a) s.advance := by
  obtain ⟨rest, last, depth, size, refused⟩ := s
  subst hrest
  rfl

theorem expressionHere_short
    {name : String} {a c : Span} {r : List LocatedToken}
    (hunary : ∀ {s : State} {name : String} {a c : Span} {r : List LocatedToken},
      s.rest = (.identifier name, a) :: (.mark .colonEqual, c) :: r →
        g.unary s = .ok (.identifier name a) s.advance)
    (hrest : s.rest = (.identifier name, a) :: (.mark .colonEqual, c) :: r) :
    expressionHere g s = .ok (.identifier name a) s.advance := by
  have hfirst := hunary hrest
  rw [expressionHere, operatorsFrom, ok_bind hfirst]
  obtain ⟨rest, last, depth, size, refused⟩ := s
  subst hrest
  rfl

/-- An expression that is read one level deeper, as a statement, is read by the readers that call
these, too. -/
theorem expression_tries
    {k : Nat} {j : Joint} {t s' : State} {x : Stmt} (hg : g.Persists k)
    (hexpression : Persists anything (k + 1) True .something 0 0 g.expression)
    (hsame : Alongside False (k + 1) allOwe Expr.Alike g.expression g.over.expression)
    (hunary : ∀ {s : State} {name : String} {a c : Span} {r : List LocatedToken},
      s.rest = (.identifier name, a) :: (.mark .colonEqual, c) :: r →
        g.unary s = .ok (.identifier name a) s.advance)
    (hj : j.Clean) (hst : Ahead j s t) (hweight : tokensWeight s.rest ≤ k + 1)
    (hbegins : s.current.1.begins = true) (hread : g.over.statement s = .ok x s')
    (hrefused : s'.refused = s.refused) :
    ∃ e s₁, g.over.expression s = .ok e s₁ := by
  have hs := hst.ends hj
  have hwithin := hst.within hweight
  rw [show g.over.statement s = nested (statementHere g) s from rfl, nested_apply] at hread
  split at hread
  · cases hread
  next hlimit =>
  cases hx : statementHere g { s with depth := s.depth + 1 } with
  | error e s₁ =>
      rw [hx] at hread
      cases hread
  | ok y s₁ =>
  rw [hx] at hread
  cases hread
  have hplain (h : expressionStatement g { s with depth := s.depth + 1 } = .ok x s₁) :
      ∃ e s₁, g.over.expression s = .ok e s₁ := by
    obtain ⟨a, s₀, ha, h⟩ := ok_of_bind h
    cases ha
    obtain ⟨e, s₂, he, hrest⟩ := ok_of_bind h
    have hfirst := hexpression.spends (hs.withDepth (d := s.depth + 1)) trivial he
    have hwithin' : State.Within (k + 1) { s with depth := s.depth + 1 } :=
      ⟨hwithin.fits, hwithin.weight⟩
    have hsecond := (Persists.assigned (b := True) (i := 0) hg _ e).spends hfirst.ends
      trivial hrest
    have hle := (hfirst.grows hwithin').refused
    have hle' := (hsecond.grows (hfirst.within hwithin' (.inr ⟨rfl, Nat.le_refl _⟩))).refused
    dsimp only at hrefused hle
    obtain ⟨t', ht', -⟩ := hexpression.follows hj.alone (hst.alone (Nat.le_succ s.depth)) trivial
      hweight he (Nat.le_antisymm (by dsimp only; omega) hle) fun _ => trivial
    have hboth := hsame (.refl (hs.whole hwithin)) hweight False.elim
    rw [ht'] at hboth
    generalize g.over.expression s = y at hboth
    cases hboth with
    | ok _ _ _ =>
        exact ⟨_, _, rfl⟩
  obtain ⟨a, s₀, ha, hx⟩ := ok_of_bind hx
  cases ha
  obtain ⟨u, s₀, hu, hx⟩ := ok_of_bind hx
  cases hu
  change s.current.1.begins = true at hbegins
  have hfront : ({ s with depth := s.depth + 1 } : State).current.1 = s.current.1 := rfl
  rw [hfront] at hx
  generalize hcurrent : s.current.1 = u at hx hbegins
  cases u with
  | keyword w =>
      cases w <;> first | exact hplain hx | cases hbegins
  | identifier name =>
      obtain ⟨next, s₀, hnext, hx⟩ := ok_of_bind hx
      rw [Persists.peek_ok] at hnext
      cases hnext
      split at hx
      · next hshort =>
          obtain ⟨⟨v, b⟩, ⟨v', c⟩, r, hrest, hv⟩ := hs.rest_eq_cons (hcurrent ▸ rfl)
          rw [hv] at hcurrent
          rw [hrest] at hshort
          cases hcurrent
          cases Token.isMark_iff.mp hshort
          rw [show g.over.expression s = nested (expressionHere g) s from rfl, nested_apply,
            if_neg hlimit, expressionHere_short (s := { s with depth := s.depth + 1 }) hunary hrest]
          exact ⟨_, _, rfl⟩
      · exact hplain hx
  | eof =>
      cases hbegins
  | _ =>
      exact hplain hx

/-! ### All readers -/

/-- No text has so little weight. -/
theorem State.Ends.weight_pos
    (hs : s.Ends) :
    0 < tokensWeight s.rest := by
  obtain ⟨xs, a, hrest, -⟩ := hs
  rw [hrest, tokensWeight_append]
  exact Nat.lt_of_lt_of_le Nat.one_pos (Nat.le_add_left _ _)

theorem Reader.Persists.bottom
    (k : Nat) :
    (readers 0).Persists k where
  expression := .fails fun _ _ _ h => by cases h
  operators _ := .fails fun _ _ _ h => by cases h
  unary := .fails fun _ _ _ h => by cases h
  statement := .fails fun _ _ _ h => by cases h
  statementHere := .fails fun _ _ _ h => by cases h
  type := .fails fun _ _ _ h => by cases h
  typeMirrors := .fails fun _ => ⟨_, rfl⟩
  bars _ _ := ⟨_, rfl⟩
  rejects _ _ _ _ _ := .inl ⟨_, rfl⟩
  tries _ _ _ _ _ _ _ _ _ h := by cases h

theorem Reader.Persists.over_zero
    (hg : g.Persists 0) :
    g.over.Persists 0 := by
  have hg' : g.Alongside 0 g :=
    ⟨.weightless, fun _ => .weightless, .weightless, .weightless, .weightless, .weightless⟩
  constructor
  · exact Grammar.Persists.nested (Grammar.Persists.operatorsFrom hg hg.unary (Nat.zero_le _) _)
  · exact Grammar.Persists.operatorsFrom hg hg.unary (Nat.zero_le _)
  · exact (Grammar.Persists.unaryExpr hg).down
  · exact Grammar.Persists.nested
      (Grammar.Persists.statementHere hg hg' hg.expression (Nat.zero_le _))
  · exact Grammar.Persists.statementHere hg hg' hg.expression (Nat.zero_le _)
  · exact (Grammar.Persists.typeExpr hg).down
  · exact Mirrors.typeExpr hg
  · exact fun s => unaryExpr_bars
  · exact fun s t => expression_rejects hg.bars
  · intro j hj s t hst hweight
    exact absurd (hst.ends hj).weight_pos (Nat.not_lt.mpr hweight)

/-- Three rounds for each token are enough. -/
theorem readers_persists
    (k n : Nat) :
    (readers (3 * k + n)).Persists k := by
  induction k generalizing n with
  | zero =>
      rw [Nat.mul_zero, Nat.zero_add]
      induction n with
      | zero =>
          exact .bottom 0
      | succ n ih =>
          exact ih.over_zero
  | succ k ih =>
      have hunary (n : Nat) {b : Prop} {i : Nat} : Persists anything (k + 1) b .something i i
          (readers (3 * k + n + 1)).unary :=
        .unaryExpr (ih n)
      have hoperators (n : Nat) {b : Prop} {i : Nat} (level : Nat) :
          Persists anything (k + 1) b .something i i ((readers (3 * k + n + 2)).operators level) :=
        .operatorsFrom (ih (n + 1)) (hunary n) (Nat.le_refl _) level
      have hexpression (n : Nat) {b : Prop} {i : Nat} : Persists anything (k + 1) b .something i i
          (readers (3 * k + n + 2)).expression :=
        .nested (hoperators n _)
      have hstatement (n : Nat) {b : Prop} {i : Nat} : Persists anything (k + 1) b .something i i
          (readers (3 * k + n + 3)).statementHere :=
        .statementHere (ih (n + 2)) (readers_alongside k (n + 2) (n + 2)) (hexpression n)
          (Nat.le_refl _)
      have hsame : Alongside False (k + 1) allOwe Expr.Alike (readers (3 * k + n + 2)).expression
          (readers (3 * k + n + 3)).expression :=
        .nested (.operatorsFrom (readers_alongside k (n + 1) (n + 2))
          (.unaryExpr (readers_alongside k n (n + 1))) _)
      rw [show 3 * (k + 1) + n = 3 * k + n + 3 by omega]
      exact {
        expression := hexpression (n + 1)
        operators := hoperators (n + 1)
        unary := hunary (n + 2)
        statement := .nested (hstatement n)
        statementHere := hstatement n
        type := .typeExpr (ih (n + 2))
        typeMirrors := .typeExpr (ih (n + 2))
        bars := fun _ => unaryExpr_bars
        rejects := fun _ _ => expression_rejects (ih (n + 2)).bars
        tries := fun _ hj _ _ hst hweight hbegins _ _ =>
          expression_tries (ih (n + 2)) (hexpression n) hsame unaryExpr_short hj hst hweight
            hbegins }

/-! ### What a program consumes -/

/-- A program that reads without an error is consumed to its end. -/
theorem Runs.spent
    (hp : Persists anything k True .something 0 0 p) (h : Runs p s xs es) (hes : es = [])
    (hs : s.Ends) :
    ∃ s', Spent k True .nothing 0 0 s s' ∧ s'.current.1.isEof = true := by
  induction h with
  | @ended s hend =>
      exact ⟨s, .refl hs, hend⟩
  | semicolon hend hfront _ ih =>
      have hmark := Token.isMark_iff.mp hfront
      have hstep : Spent k True .something 0 0 _ _ :=
        .step hs rfl hend (by rw [hmark]; simp) (.token (by rw [hmark]; rfl)) (List.cons_ne_nil _ _)
          fun _ => by rw [hmark]; rfl
      obtain ⟨s', hrest, hended⟩ := ih hes (hs.advance hend)
      have hfirst : Spent k True .nothing 0 0 _ _ :=
        hstep.weaken (Nat.le_refl _) id (.inr (.inl rfl))
      exact ⟨s', hfirst.trans hrest (fun _ => .inl trivial) (.inl (Nat.le_refl _)) (.inl rfl),
        hended⟩
  | statement hend hfront hread _ ih =>
      have hstmt := hp.spends hs trivial hread
      obtain ⟨s', hrest, hended⟩ := ih hes hstmt.ends
      have hfirst : Spent k True .nothing 0 0 _ _ :=
        hstmt.weaken (Nat.le_refl _) id (.inr (.inl rfl))
      exact ⟨s', hfirst.trans hrest (fun _ => .inl trivial) (.inl (Nat.le_refl _)) (.inl rfl),
        hended⟩
  | failed =>
      cases hes

/-! ### What a program begins with -/

theorem expression_fails
    {g : Reader} (hbars : ∀ s : State, s.current.1.begins = false → ∃ e, g.unary s = .error e s)
    (hs : s.current.1.begins = false) :
    ∃ e s', g.over.expression s = .error e s' := by
  rw [show g.over.expression s = nested (expressionHere g) s from rfl, nested_apply]
  split
  · exact ⟨_, _, rfl⟩
  · obtain ⟨e, he⟩ := hbars { s with depth := s.depth + 1 } hs
    rw [show expressionHere g _ = .error e _ from error_bind he]
    exact ⟨_, _, rfl⟩

/-- A token that opens no statement is not the first of one. -/
theorem statement_opens
    {g : Reader} {x : Stmt} {s' : State}
    (hexpression : ∀ s : State, s.current.1.begins = false → ∃ e s', g.expression s = .error e s')
    (h : g.over.statement s = .ok x s') :
    s.current.1.opens = true := by
  rw [show g.over.statement s = nested (statementHere g) s from rfl, nested_apply] at h
  split at h
  · cases h
  cases hx : statementHere g { s with depth := s.depth + 1 } with
  | error e s₁ =>
      rw [hx] at h
      cases h
  | ok y s₁ =>
  have hplain (hs : s.current.1.begins = false) :
      expressionStatement g { s with depth := s.depth + 1 } ≠ .ok y s₁ := by
    intro h
    obtain ⟨a, s₀, ha, h⟩ := ok_of_bind h
    cases ha
    obtain ⟨e, s₂, he, -⟩ := ok_of_bind h
    obtain ⟨e', s₃, he'⟩ := hexpression { s with depth := s.depth + 1 } hs
    rw [he'] at he
    cases he
  obtain ⟨a, s₀, ha, hx⟩ := ok_of_bind hx
  cases ha
  obtain ⟨v, s₀, hv, hx⟩ := ok_of_bind hx
  cases hv
  rw [show ({ s with depth := s.depth + 1 } : State).current.1 = s.current.1 from rfl] at hx
  generalize s.current.1 = v at hx hplain
  cases v with
  | keyword w =>
      cases w <;> first | rfl | exact absurd hx (hplain rfl)
  | mark m =>
      cases m <;> first | rfl | exact absurd hx (hplain rfl)
  | _ =>
      rfl

/-! ### Two programs -/

/-- What is read of the first text alone is read of it with the second one behind, and no level is
left open. -/
theorem Runs.reads
    {j : Joint} (hq : Persists anything k True .something 0 0 q)
    (hqp : Alongside False k allOwe Stmt.Alike q p) (hj : j.Clean) (h : Runs p u xs es)
    (hes : es = []) (hclosed : ∀ v, Visits p u v → v.depth = 0) (hsu : s.Alike u)
    (hst : Ahead j s t) (hweight : tokensWeight s.rest ≤ k) :
    ∃ ys s' t', Reads q t ys t' ∧ List.Forall₂ Stmt.Alike ys xs ∧ Ahead j s' t' ∧
      s'.current.1.isEof = true ∧ t'.depth = 0 := by
  induction h generalizing s t with
  | @ended u hend =>
      have hdepth := hst.depth_le
      rw [hsu.depth, hclosed u .start] at hdepth
      exact ⟨[], s, t, .here t, .nil, hst, hsu.current.isEof_eq.trans hend, Nat.le_zero.mp hdepth⟩
  | @semicolon u xs es hend hfront _ ih =>
      have hend' := hsu.current.isEof_eq.trans hend
      have hmark := Token.isMark_iff.mp ((hsu.current.isMark_eq _).trans hfront)
      have hnext := hsu.advance
      obtain ⟨ys, s', t', hreads, hys, hrest⟩ := ih hes
        (fun v hv => hclosed v (hv.trans (.semicolon .start hend hfront))) hnext.alike
        (hst.advance hend') (Nat.le_trans (tokensWeight_le_of_suffix hnext.left.rest) hweight)
      exact ⟨ys, s', t', .semicolon (by rw [hst.current_eq hend', hmark]) hreads, hys, hrest⟩
  | @statement u u' x xs es hend hfront hread _ ih =>
      have hend' := hsu.current.isEof_eq.trans hend
      have hboth := hqp hsu hweight False.elim
      rw [hread] at hboth
      cases hx : q s with
      | error e s' =>
          rw [hx] at hboth
          cases hboth
      | ok y s' =>
      rw [hx] at hboth
      cases hboth with
      | ok hyx hnext _ =>
      have hdepth : s.depth = 0 := hsu.depth.trans (hclosed u .start)
      have hdepth' : s'.depth = 0 :=
        hnext.alike.depth.trans (hclosed u' (.statement .start hend hfront hread))
      obtain ⟨n, hrefused, hlevels⟩ := hnext.balanced
      obtain ⟨t₁, hread', hst'⟩ := hq.follows hj hst trivial hweight hx (by omega) fun _ => trivial
      obtain ⟨ys, s₁, t', hreads, hys, hrest⟩ := ih hes
        (fun v hv => hclosed v (hv.trans (.statement .start hend hfront hread))) hnext.alike hst'
        (Nat.le_trans (tokensWeight_le_of_suffix hnext.left.rest) hweight)
      have hcurrent := hst.current_eq hend'
      exact ⟨y :: ys, s₁, t', .statement (by rw [hcurrent]; exact hend')
        (by rw [hcurrent, hsu.current.isMark_eq]; exact hfront) hread' hreads, .cons hyx hys, hrest⟩
  | failed =>
      cases hes

/-! ### Texts behind each other -/

/-- A program that is read without an error begins with a token that opens a statement. -/
theorem opens_of_ofTokens
    {ts : List LocatedToken} {r : Program} (h : Program.ofTokens ts = .ok r) :
    (State.ofTokens ts).current.1.opens = true := by
  obtain ⟨xs, es, hruns, -, ⟨rfl, -⟩ | ⟨-, herror⟩⟩ := exists_runs_ofTokens ts
  · generalize State.ofTokens ts = s at hruns
    cases hruns with
    | ended hend =>
        rw [Token.isEof_iff.mp hend]
        rfl
    | semicolon _ hfront _ =>
        rw [Token.isMark_iff.mp hfront]
        rfl
    | statement _ _ hread _ =>
        have hbars (s : State) (hs : s.current.1.begins = false) :
            ∃ e, (readers (4 * tokensWeight ts + 14)).unary s = .error e s :=
          unaryExpr_bars hs
        exact statement_opens (g := readers (4 * tokensWeight ts + 15))
          (fun s => expression_fails hbars) hread
  · rw [h] at herror
    cases herror

/-- The text `us` begins with a word that goes on with what the text `ts` ends with: the local name
of an import, or the bound of a wildcard. -/
def Absorbs (ts us : List LocatedToken) : Prop :=
  (∃ xs ys name a b c, ts = xs ++ [(.keyword .importKw, a), (.identifier name, b)] ∧
    us = (.identifier "as", c) :: ys) ∨
  ∃ xs ys a b, ts = xs ++ [(.mark .question, a)] ∧ us = (.keyword .superKw, b) :: ys

theorem fresh_of_ofTokens
    {ts : List LocatedToken} {stop : Span} {j : Joint} {r : Program}
    (hinner : ∀ t ∈ ts, t.1.isEof = false) (h : Program.ofTokens (ts ++ [(.eof, stop)]) = .ok r)
    (htext : j.text = ts) (hopens : j.first.1.opens = true)
    (hlater : ∀ t ∈ ts, t.2.line < j.first.2.line) (habsorbs : ¬ Absorbs ts (j.first :: j.behind)) :
    j.Fresh := by
  have hrest : (State.ofTokens (ts ++ [(.eof, stop)])).rest = ts ++ [(.eof, stop)] := by
    simp [State.ofTokens]
  have hends : (State.ofTokens (ts ++ [(.eof, stop)])).Ends := ⟨ts, stop, hrest, hinner⟩
  obtain ⟨xs, es, hruns, -, ⟨rfl, -⟩ | ⟨-, herror⟩⟩ :=
    exists_runs_ofTokens (ts ++ [(.eof, stop)])
  · have hpersists := readers_persists 0 (4 * tokensWeight (ts ++ [(Token.eof, stop)]) + 16)
    rw [Nat.mul_zero, Nat.zero_add] at hpersists
    obtain ⟨s', hspent, hend⟩ := hruns.spent hpersists.statement rfl hends
    obtain ⟨c, hc, hends', -, -, -, hsettled, hlast⟩ := hspent
    obtain ⟨b, hb⟩ := hends'.rest_eq hend
    rw [hrest, hb] at hc
    obtain ⟨rfl, -⟩ := List.append_inj' hc rfl
    constructor
    · exact hopens
    · exact htext ▸ hlater
    · exact htext ▸ hlast trivial
    · rintro ⟨a, xs, hxs⟩
      refine Bool.eq_false_iff.mpr fun hsuper => habsorbs (.inr ⟨xs, j.behind, a, j.first.2, ?_, ?_⟩)
      · rw [← htext, hxs]
      · rw [← Token.isKeyword_iff.mp hsuper]
    · rintro ⟨a, b, xs, hxs⟩
      exact hsettled.super xs a b (by rw [← htext, hxs])
    · rintro ⟨a, b, name, xs, hxs⟩ has
      refine habsorbs (.inl ⟨xs, j.behind, name, a, b, j.first.2, ?_, ?_⟩)
      · rw [← htext, hxs]
      · rw [← has]
  · rw [h] at herror
    cases herror

/-- A text is read to its end, with another one behind it as without. -/
theorem reaches_of_ofTokens
    {ts us : List LocatedToken} {stop : Span} {r : Program} {u : LocatedToken} (hne : ts ≠ [])
    (hinner : ∀ t ∈ ts, t.1.isEof = false) (h : Program.ofTokens (ts ++ [(.eof, stop)]) = .ok r)
    (hclosed : ∀ t, Visits (readersFor (ts ++ [(.eof, stop)])).statement
      (State.ofTokens (ts ++ [(.eof, stop)])) t → t.depth = 0)
    (hlast : ∃ b, (u :: us).getLast? = some (.eof, b)) (hopens : u.1.opens = true)
    (hlater : ∀ t ∈ ts, t.2.line < u.2.line) (habsorbs : ¬ Absorbs ts (u :: us)) :
    ∃ xs, Reaches ts (u :: us) xs ∧ List.Forall₂ Stmt.Alike xs r.statements := by
  let j : Joint := ⟨ts, stop, u, us⟩
  have hfresh : j.Fresh := fresh_of_ofTokens hinner h rfl hopens hlater habsorbs
  have hclean : j.Clean := ⟨hinner, hne, .inr hfresh⟩
  obtain ⟨b, hb⟩ := hlast
  have hstart :
      Ahead j (State.ofTokens (ts ++ [(.eof, stop)])) (State.ofTokens (ts ++ u :: us)) := by
    have hstate : State.ofTokens (ts ++ [(.eof, stop)]) =
        ⟨ts ++ [(.eof, stop)], none, 0, (ts ++ [(Token.eof, stop)]).length, 0⟩ := by
      simp [State.ofTokens]
    have hstate' : State.ofTokens (ts ++ u :: us) =
        ⟨ts ++ u :: us, none, 0, (ts ++ u :: us).length, 0⟩ := by
      rw [State.ofTokens, List.getLast?_append_of_ne_nil _ (List.cons_ne_nil _ _), hb]
    rw [hstate, hstate']
    simpa using Ahead.start j
  have hweight : tokensWeight (ts ++ [(Token.eof, stop)]) ≤ tokensWeight (ts ++ u :: us) := by
    have := length_le_tokensWeight (u :: us)
    rw [tokensWeight_append, tokensWeight_append]
    simp [tokensWeight, pairWeight, tokenWeight] at this ⊢
    omega
  have hrest : (State.ofTokens (ts ++ [(.eof, stop)])).rest = ts ++ [(.eof, stop)] := by
    simp [State.ofTokens]
  have hpersists := readers_persists (tokensWeight (ts ++ [(Token.eof, stop)]))
    (4 * tokensWeight (ts ++ u :: us) + 16 - 3 * tokensWeight (ts ++ [(Token.eof, stop)]))
  rw [Nat.add_sub_cancel' (by omega)] at hpersists
  have hsame : Reader.Alongside (tokensWeight (ts ++ [(Token.eof, stop)]))
      (readersFor (ts ++ u :: us)) (readersFor (ts ++ [(.eof, stop)])) :=
    readersFor_alongside (Nat.le_succ_of_le hweight) (Nat.le_succ _)
  obtain ⟨xs, es, hruns, -, ⟨rfl, span, hok⟩ | ⟨-, herror⟩⟩ :=
    exists_runs_ofTokens (ts ++ [(.eof, stop)])
  · rw [h] at hok
    cases hok
    obtain ⟨ys, s', t', hreads, hys, hst', hend, hdepth⟩ := hruns.reads hpersists.statement
      hsame.statement hclean rfl hclosed (.refl (State.whole_ofTokens _)) hstart
      (Nat.le_of_eq (by rw [hrest]))
    obtain ⟨-, hrest', -⟩ := hst'.seam hclean hend
    exact ⟨ys, ⟨t', hreads, hrest', hst'.joinsLine_seam hclean hfresh hend, hdepth⟩, hys⟩
  · rw [h] at herror
    cases herror

end Grammar

/-! ### Lines -/

open Grammar in
/-- The text `us`, which begins on a line behind the text `ts`, reads behind it as the text `vs` of
the same layout does alone. -/
theorem Program.ofTokens_lines
    {ts us vs : List LocatedToken} {stop a : Span} {p q : Program}
    (hinner : ∀ t ∈ ts, t.1.isEof = false) (hp : Program.ofTokens (ts ++ [(.eof, stop)]) = .ok p)
    (hlast : us.getLast? = some (.eof, a)) (hlayout : SameLayout us vs)
    (hq : Program.ofTokens vs = .ok q) (hordered : Ordered (ts ++ us)) (hordered' : Ordered vs)
    (hlater : ∀ t ∈ ts, ∀ u ∈ us, t.2.line < u.2.line) (habsorbs : ¬ Absorbs ts us)
    (hclosed : ∀ t, Visits (readersFor (ts ++ [(.eof, stop)])).statement
      (State.ofTokens (ts ++ [(.eof, stop)])) t → t.depth = 0) :
    Program.SameResult (Program.ofTokens (ts ++ us)) (.ok (q.after p.statements)) := by
  have hreaches : ∃ xs, Reaches ts us xs ∧ List.Forall₂ Stmt.Alike xs p.statements := by
    by_cases hne : ts = []
    · subst hne
      have hstart : State.ofTokens us = ⟨us, none, 0, us.length, 0⟩ := by
        rw [State.ofTokens, hlast]
      cases hp
      exact ⟨[], ⟨_, .here _, by rw [List.nil_append, hstart], rfl, rfl⟩, .nil⟩
    · cases us with
      | nil =>
          cases hlast
      | cons u us =>
          have hopens := opens_of_ofTokens hq
          have hfirst : (State.ofTokens (u :: us)).current = u := by
            rw [State.ofTokens, hlast]
            rfl
          rw [← (State.Alike.ofTokens hlayout).current.opens_eq, hfirst] at hopens
          exact reaches_of_ofTokens hne hinner hp hclosed ⟨a, hlast⟩ hopens
            (fun t ht => hlater t ht u List.mem_cons_self) habsorbs
  obtain ⟨xs, hreaches, hxs⟩ := hreaches
  have hsame := ofTokens_behind hlast hlayout hordered hordered' hreaches hxs
  rwa [hq] at hsame

theorem Program.read_eq_ok_iff
    {source : String} {p : Program} :
    Program.read source = .ok p ↔
      ∃ ts, tokenize source = .ok ts ∧ Program.ofTokens ts = .ok p := by
  unfold Program.read
  cases tokenize source with
  | error es =>
      simp
  | ok ts =>
      cases hread : Program.ofTokens ts with
      | error es | ok q =>
          simp [hread]

open Grammar in
/-- The nesting counter is back at zero whenever a statement of a source has been read. -/
def Program.LeavesNoLevel (source : String) : Prop :=
  ∀ ts, tokenize source = .ok ts →
    ∀ t, Visits (readersFor ts).statement (State.ofTokens ts) t → t.depth = 0

open Grammar in
/-- The second source begins with a word that goes on with what the first one ends with. -/
def Program.Continues (s t : String) : Prop :=
  ∃ ts us, tokenize s = .ok ts ∧ tokenize t = .ok us ∧ Absorbs ts.dropLast us

namespace Grammar

theorem Absorbs.of_sameLayout
    {ts us vs : List LocatedToken} (h : Absorbs ts us) (hlayout : SameLayout us vs) :
    Absorbs ts vs := by
  obtain ⟨xs, ys, name, a, b, c, rfl, rfl⟩ | ⟨xs, ys, a, b, rfl, rfl⟩ := h
  · obtain ⟨⟨t, c'⟩, zs, rfl⟩ := List.exists_cons_of_ne_nil (l := vs) (by rintro rfl; cases hlayout)
    cases hlayout.head
    exact .inl ⟨xs, zs, name, a, b, c', rfl, rfl⟩
  · obtain ⟨⟨t, b'⟩, zs, rfl⟩ := List.exists_cons_of_ne_nil (l := vs) (by rintro rfl; cases hlayout)
    cases hlayout.head
    exact .inr ⟨xs, zs, a, b', rfl, rfl⟩

end Grammar

open Grammar in
/-- A source reads behind another one, on the lines below it, as both do alone: the statements of
the first come before those of the second.  The first must not end in an open comment or leave a
level open, and the second must not begin with a word that is taken for a part of the last statement
before it. -/
theorem Program.read_lines
    {s t : String} {p q : Program} (hp : Program.read s = .ok p) (hq : Program.read t = .ok q)
    (hcomment : ¬ EndsInComment s) (hlevels : Program.LeavesNoLevel s)
    (habsorbs : ¬ Program.Continues s t) :
    ∃ r, Program.read (s ++ "\n" ++ t) = .ok r ∧ r.Alike (q.after p.statements) := by
  obtain ⟨ts, hs, hp⟩ := Program.read_eq_ok_iff.mp hp
  obtain ⟨us, ht, hq⟩ := Program.read_eq_ok_iff.mp hq
  obtain ⟨xs, ys, stop, rfl, hread, hlayout, ⟨a, hlast⟩, hordered, hordered', hlater, hinner⟩ :=
    tokenize_lines hs ht hcomment
  have habsorbs : ¬ Absorbs xs ys := fun h =>
    habsorbs ⟨_, _, hs, ht, by rw [List.dropLast_concat]; exact h.of_sameLayout hlayout⟩
  have hsame := Program.ofTokens_lines hinner hp hlast hlayout hq hordered hordered' hlater habsorbs
    (hlevels _ hs)
  generalize hresult : Program.ofTokens (xs ++ ys) = result at hsame
  cases hsame with
  | program hprogram =>
      exact ⟨_, Program.read_eq_ok_iff.mpr ⟨_, hread, hresult⟩, hprogram⟩

open Grammar in
/-- A bare `return`, and on the next line an expression that begins with a minus sign. -/
theorem Program.read_lines_return :
    ∃ p q, Program.read "return" = .ok p ∧ Program.read "-x" = .ok q ∧ ¬ EndsInComment "return" ∧
      Program.LeavesNoLevel "return" ∧ ¬ Program.Continues "return" "-x" ∧
        ∃ r, Program.read ("return" ++ "\n" ++ "-x") = .ok r ∧ r.Alike (q.after p.statements) := by
  have hs : tokenize "return" =
      .ok [(.keyword .returnKw, ⟨0, 6, 1, 1⟩), (.eof, ⟨6, 6, 1, 7⟩)] := by
    cbv
  have ht : tokenize "-x" =
      .ok [(.mark .minus, ⟨0, 1, 1, 1⟩), (.identifier "x", ⟨1, 2, 1, 2⟩),
        (.eof, ⟨2, 2, 1, 3⟩)] := by
    cbv
  have hp := Program.read_eq_ok_iff.mpr ⟨_, hs, rfl⟩
  have hq := Program.read_eq_ok_iff.mpr ⟨_, ht, rfl⟩
  have hcomment : ¬ EndsInComment "return" := by
    rintro ⟨-, front, blank, comment, -, hsource, -⟩
    have hslash : '/' ∈ "return".toList := by
      rw [hsource]
      simp
    exact absurd hslash (by decide)
  have hlevels : Program.LeavesNoLevel "return" := by
    intro ts h u hu
    rw [hs] at h
    cases h
    have hplaces : u = ⟨[(.keyword .returnKw, ⟨0, 6, 1, 1⟩), (.eof, ⟨6, 6, 1, 7⟩)], none, 0, 2, 0⟩ ∨
        u = ⟨[(.eof, ⟨6, 6, 1, 7⟩)], some ⟨0, 6, 1, 1⟩, 0, 2, 0⟩ := by
      induction hu with
      | start =>
          exact .inl rfl
      | semicolon _ hend hfront ih =>
          obtain rfl | rfl := ih
          · cases hfront
          · cases hend
      | statement _ hend _ hread ih =>
          obtain rfl | rfl := ih
          · cases hread
            exact .inr rfl
          · cases hend
      | failed _ hend _ hread ih =>
          obtain rfl | rfl := ih
          · cases hread
          · cases hend
    obtain rfl | rfl := hplaces
    · rfl
    · rfl
  have habsorbs : ¬ Program.Continues "return" "-x" := by
    rintro ⟨ts, us, hs', ht', habsorbs⟩
    rw [hs] at hs'
    rw [ht] at ht'
    cases hs'
    cases ht'
    obtain ⟨xs, ys, name, a, b, c, -, hus⟩ | ⟨xs, ys, a, b, -, hus⟩ := habsorbs
    · cases hus
    · cases hus
  exact ⟨_, _, hp, hq, hcomment, hlevels, habsorbs,
    Program.read_lines hp hq hcomment hlevels habsorbs⟩

/-- The name at the start of the second line is taken for the local name of the module. -/
example : ((Program.read "import Sys").toBool && (Program.read "as = 5").toBool &&
    !(Program.read ("import Sys" ++ "\n" ++ "as = 5")).toBool) = true := by
  cbv

end ScriptEngine
