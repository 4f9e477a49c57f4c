import ScriptEngine.Proofs.Grammar.Statements

/-!
# Reading does not depend on layout

A program reads the same from any two sequences of tokens of the same layout: the statements are
alike, or the errors are.  Columns, offsets, comments and absolute line numbers have no influence.

The readers are compared by induction on the weight of the text, whatever their bounds are, as long
as these allow for it; so no reading ever comes to its bound.  Going on after an error is the one
place that compares lines of tokens far apart; it can do so because lines never go back.
-/

namespace ScriptEngine
namespace Grammar

/-! ### Readers -/

/-- No text has so little weight. -/
theorem Alongside.weightless
    {α β : Type} {c : Prop} {d : α → Prop} {R : α → β → Prop} {p : Parse α} {q : Parse β} :
    Alongside c 0 d R p q := by
  intro s t hst hk _
  exact absurd hst.left.weight_pos (Nat.not_lt.mpr hk)

/-- The readers that call the given ones where they call each other. -/
def Reader.over (g : Reader) : Reader where
  expression := fun s => nested (expressionHere g) s
  operators := fun least s => operatorsFrom g least s
  unary := fun s => unaryExpr g s
  statement := fun s => nested (Grammar.statementHere g) s
  statementHere := fun s => Grammar.statementHere g s
  type := fun s => typeExpr g s

/-- The readers with a bound on their calls of each other, and others for what is behind it. -/
def readersOver (base : Reader) : Nat → Reader
  | 0 => base
  | n + 1 => (readersOver base n).over

theorem readersOver_readers
    (n : Nat) :
    readersOver (readers 0) n = readers n := by
  induction n with
  | zero =>
      rfl
  | succ n ih =>
      rw [readersOver, ih]
      rfl

/-- Three rounds for each token are enough, and more change nothing: a statement calls for an
expression, that one for its first operand, and there a token is consumed.  What is behind the bound
is never asked. -/
theorem readersOver_alongside
    (base base' : Reader) (k n m : Nat) :
    Reader.Alongside k (readersOver base (3 * k + n)) (readersOver base' (3 * k + m)) := by
  induction k generalizing n m with
  | zero =>
      exact ⟨.weightless, fun _ => .weightless, .weightless, .weightless, .weightless, .weightless⟩
  | succ k ih =>
      have hunary (n m : Nat) : Alongside False (k + 1) allOwe Expr.Alike
          (readersOver base (3 * k + n + 1)).unary (readersOver base' (3 * k + m + 1)).unary :=
        .unaryExpr (ih n m)
      have hoperators (n m level : Nat) : Alongside False (k + 1) allOwe Expr.Alike
          ((readersOver base (3 * k + n + 2)).operators level)
          ((readersOver base' (3 * k + m + 2)).operators level) :=
        .operatorsFrom (ih (n + 1) (m + 1)) (hunary n m) level
      have hexpression (n m : Nat) : Alongside False (k + 1) allOwe Expr.Alike
          (readersOver base (3 * k + n + 2)).expression
          (readersOver base' (3 * k + m + 2)).expression :=
        .nested (hoperators n m _)
      have hstatement (n m : Nat) : Alongside False (k + 1) allOwe Stmt.Alike
          (readersOver base (3 * k + n + 3)).statementHere
          (readersOver base' (3 * k + m + 3)).statementHere :=
        .statementHere (ih (n + 2) (m + 2)) (hexpression n m)
      rw [show 3 * (k + 1) + n = 3 * k + n + 3 by omega,
        show 3 * (k + 1) + m = 3 * k + m + 3 by omega]
      exact {
        expression := hexpression (n + 1) (m + 1)
        operators := hoperators (n + 1) (m + 1)
        unary := hunary (n + 2) (m + 2)
        statement := .nested (hstatement n m)
        statementHere := hstatement n m
        type := .typeExpr (ih (n + 2) (m + 2)) }

/-- A bound that allows for the text may be any. -/
theorem readersOver_self
    (base : Reader) {k n : Nat} (hn : 3 * k ≤ n) :
    Reader.Alongside k (readersOver base n) (readersOver base n) := by
  have h := readersOver_alongside base base k (n - 3 * k) (n - 3 * k)
  rwa [Nat.add_sub_cancel' hn] at h

theorem readers_alongside
    (k n m : Nat) :
    Reader.Alongside k (readers (3 * k + n)) (readers (3 * k + m)) := by
  simpa only [readersOver_readers] using readersOver_alongside (readers 0) (readers 0) k n m

/-- The bound that goes with a text is enough for it, and for every part of it. -/
theorem readersFor_alongside
    {ts us : List LocatedToken} {k : Nat} (hts : k ≤ tokensWeight ts + 1)
    (hus : k ≤ tokensWeight us + 1) :
    Reader.Alongside k (readersFor ts) (readersFor us) := by
  have h := readers_alongside k (4 * tokensWeight ts + 16 - 3 * k) (4 * tokensWeight us + 16 - 3 * k)
  rwa [Nat.add_sub_cancel' (by omega), Nat.add_sub_cancel' (by omega)] at h

/-! ### Going on after an error -/

/-- The tokens in front stand on the lines `l` and `l'`, or both on later ones. -/
structure Level (l l' : Nat) (s t : State) : Prop where
  same : s.current.2.line = l ↔ t.current.2.line = l'
  left : l ≤ s.current.2.line
  right : l' ≤ t.current.2.line

variable {s t : State} {l l' : Nat}

theorem Level.refl :
    Level s.current.2.line t.current.2.line s t :=
  ⟨iff_of_true rfl rfl, Nat.le_refl _, Nat.le_refl _⟩

theorem Level.advance
    (h : Level l l' s t) (hst : s.Alike t) (hs : Ordered s.rest) (ht : Ordered t.rest) :
    Level l l' s.advance t.advance := by
  obtain ⟨rest, last, depth, size, refused⟩ := s
  obtain ⟨rest', last', depth', size', refused'⟩ := t
  cases hst.layout with
  | nil =>
      exact h
  | single _ =>
      exact h
  | @cons _ _ _ _ a b a' b' _ _ _ hline _ =>
      have hle : a.line ≤ a'.line := (List.pairwise_cons.mp hs).1 _ List.mem_cons_self
      have hle' : b.line ≤ b'.line := (List.pairwise_cons.mp ht).1 _ List.mem_cons_self
      obtain ⟨hsame, hleft, hright⟩ := h
      simp only [State.current, List.headD_cons] at hsame hleft hright
      constructor
      · simp only [State.advance, State.current, List.headD_cons]
        omega
      · exact Nat.le_trans hleft hle
      · exact Nat.le_trans hright hle'

theorem opensStatement_eq
    {t u : Token} (h : t.Alike u) :
    opensStatement t = opensStatement u := by
  cases h <;> rfl

theorem skipToStatement_succ
    (l n : Nat) (s : State) :
    skipToStatement l (n + 1) s =
      if s.current.1.isEof ∨ (s.current.2.line ≠ l ∧ opensStatement s.current.1) then s
      else skipToStatement l n s.advance := by
  rw [skipToStatement]
  generalize s.current = x
  obtain ⟨t, a⟩ := x
  cases t <;> simp [Token.isEof]

/-- What consuming a token keeps, going on after an error keeps. -/
theorem skipToStatement_keeps
    {P : State → Prop} (hadvance : ∀ s, P s → P s.advance) (l n : Nat) (h : P s) :
    P (skipToStatement l n s) := by
  induction n generalizing s with
  | zero =>
      exact h
  | succ n ih =>
      rw [skipToStatement_succ]
      split
      · exact h
      · exact ih (hadvance s h)

theorem skipToStatement_after
    (l n : Nat) (s : State) :
    s.After (skipToStatement l n s) :=
  skipToStatement_keeps (fun t h => h.trans (.advance t)) l n (.refl s)

/-- Both texts are taken up again at the same token. -/
theorem skipToStatement_onward
    (n : Nat) (hst : s.Alike t) (hs : Ordered s.rest) (ht : Ordered t.rest)
    (hlevel : Level l l' s t) :
    Onward s t (skipToStatement l n s) (skipToStatement l' n t) := by
  induction n generalizing s t with
  | zero =>
      exact .refl hst
  | succ n ih =>
      have hstop : (s.current.1.isEof ∨ (s.current.2.line ≠ l ∧ opensStatement s.current.1)) ↔
          (t.current.1.isEof ∨ (t.current.2.line ≠ l' ∧ opensStatement t.current.1)) := by
        rw [hst.current.isEof_eq, opensStatement_eq hst.current, ne_eq, hlevel.same]
      rw [skipToStatement_succ, skipToStatement_succ, if_congr hstop rfl rfl]
      split
      · exact .refl hst
      · have hnext := hst.advance
        exact hnext.trans (ih hnext.alike (hs.suffix hnext.left.rest) (ht.suffix hnext.right.rest)
          (hlevel.advance hst hs ht))

theorem resume_onward
    (hst : s.Alike t) (hs : Ordered s.rest) (ht : Ordered t.rest) :
    Onward s t s.resume t.resume := by
  have hnext := hst.advance
  unfold State.resume
  rw [hst.layout.length_eq]
  refine hnext.trans (skipToStatement_onward _ hnext.alike (hs.suffix hnext.left.rest)
    (ht.suffix hnext.right.rest) (Level.refl.advance hst hs ht))

/-! ### Statements of a program -/

theorem readStatements_succ
    (p : Parse Stmt) (n : Nat) (s : State) (xs : List Stmt) (es : List ParseError) :
    readStatements p (n + 1) s xs es =
      if s.current.1.isEof then (xs, es)
      else if s.current.1.isMark .semicolon then readStatements p n s.advance xs es
      else match p s with
        | .ok x s' => readStatements p n s' (x :: xs) es
        | .error e s' => readStatements p n s'.resume xs (e :: es) := by
  rw [readStatements]
  generalize s.current.1 = t
  cases t with
  | mark m =>
      cases m <;> rfl
  | _ =>
      rfl

/-- Going on after an error consumes a token, unless there is only the end of the text. -/
theorem resume_length
    (s : State) :
    s.resume.rest.length ≤ max 1 (s.rest.length - 1) := by
  refine Nat.le_trans (skipToStatement_after _ _ s.advance).rest.length_le ?_
  obtain ⟨_ | ⟨a, _ | ⟨b, ts⟩⟩, last, depth, size, refused⟩ := s <;> simp [State.advance]

/-- Reading a program takes no more rounds than there are tokens. -/
theorem readStatements_alike
    {p q : Parse Stmt} {k n m : Nat} (hp : Alongside False k allOwe Stmt.Alike p q)
    {xs ys : List Stmt} {es fs : List ParseError} (hst : s.Alike t) (hs : Ordered s.rest)
    (ht : Ordered t.rest) (hk : tokensWeight s.rest ≤ k) (hn : s.rest.length ≤ n)
    (hm : t.rest.length ≤ m) (hstmts : List.Forall₂ Stmt.Alike xs ys)
    (herrors : List.Forall₂ ParseError.Alike es fs) :
    Prod.RProd (List.Forall₂ Stmt.Alike) (List.Forall₂ ParseError.Alike)
      (readStatements p n s xs es) (readStatements q m t ys fs) := by
  induction n generalizing m s t xs ys es fs with
  | zero =>
      exact absurd (Nat.le_zero.mp hn) (Nat.ne_of_gt (List.length_pos_of_ne_nil hst.left.ne_nil))
  | succ n ih =>
      obtain _ | m := m
      · exact absurd (Nat.le_zero.mp hm) (Nat.ne_of_gt (List.length_pos_of_ne_nil hst.right.ne_nil))
      rw [readStatements_succ, readStatements_succ, ← hst.current.isEof_eq, ← hst.current.isMark_eq]
      split
      · exact .intro hstmts herrors
      next hfront =>
      have hlt := hst.left.advance_length (Bool.eq_false_iff.mpr hfront)
      have hnext {s' t' : State} {xs ys : List Stmt} {es fs : List ParseError}
          (h : Onward s t s' t') (hlt : s'.rest.length < s.rest.length)
          (hstmts : List.Forall₂ Stmt.Alike xs ys) (herrors : List.Forall₂ ParseError.Alike es fs) :
          Prod.RProd (List.Forall₂ Stmt.Alike) (List.Forall₂ ParseError.Alike)
            (readStatements p n s' xs es) (readStatements q m t' ys fs) := by
        have hlength := hst.layout.length_eq
        have hlength' := h.alike.layout.length_eq
        exact ih h.alike (hs.suffix h.left.rest) (ht.suffix h.right.rest)
          (Nat.le_trans (tokensWeight_le_of_suffix h.left.rest) hk) (by omega) (by omega) hstmts
          herrors
      split
      · exact hnext hst.advance hlt hstmts herrors
      · have hread := hp hst hk False.elim
        generalize p s = x at hread
        generalize q t = y at hread
        cases hread with
        | ok hstmt hstates hpaid =>
            exact hnext hstates (hpaid trivial) (.cons hstmt hstmts) herrors
        | @error _ _ s' t' herror _ hstates =>
            have hs' := hs.suffix hstates.left.rest
            have ht' := ht.suffix hstates.right.rest
            have hresume := hstates.trans (resume_onward hstates.alike hs' ht')
            have hle := resume_length s'
            have hrest := hstates.left.rest.length_le
            have hpos := List.length_pos_of_ne_nil hst.advance.alike.left.ne_nil
            exact hnext hresume (by omega) hstmts (.cons herror herrors)

theorem ordered_ofTokens
    {ts : List LocatedToken} (h : Ordered ts) :
    Ordered (State.ofTokens ts).rest := by
  have hend {t : LocatedToken} (hlast : ts.getLast? = some t) :
      Ordered (ts ++ [(.eof, ⟨t.2.stop, t.2.stop, t.2.line, t.2.column⟩)]) := by
    obtain ⟨us, rfl⟩ := List.getLast?_eq_some_iff.mp hlast
    refine List.pairwise_append.mpr ⟨h, List.pairwise_singleton _ _, fun u hu v hv => ?_⟩
    cases List.mem_singleton.mp hv
    obtain hu | hu := List.mem_append.mp hu
    · exact (List.pairwise_append.mp h).2.2 u hu t List.mem_cons_self
    · cases List.mem_singleton.mp hu
      exact Nat.le_refl _
  unfold State.ofTokens
  dsimp only
  split
  · exact h
  · next hlast =>
      exact hend hlast
  · exact List.pairwise_singleton _ _

end Grammar

open Grammar in
/-- Two sequences of tokens of the same layout read as programs that are alike, or fail with the
same errors elsewhere. -/
theorem Program.ofTokens_of_sameLayout
    {ts us : List LocatedToken} (h : SameLayout ts us) (hts : Ordered ts) (hus : Ordered us) :
    Program.SameResult (Program.ofTokens ts) (Program.ofTokens us) := by
  have hst := State.Alike.ofTokens h
  have hreaders := readersFor_alongside (State.weight_ofTokens ts)
    (tokensWeight_eq h ▸ State.weight_ofTokens ts)
  have hread := readStatements_alike hreaders.statement hst (ordered_ofTokens hts)
    (ordered_ofTokens hus) (Nat.le_refl _) (Nat.le_succ _) (Nat.le_succ _) .nil .nil
  unfold Program.ofTokens
  dsimp only
  generalize readStatements _ _ (State.ofTokens ts) [] [] = x at hread
  generalize readStatements _ _ (State.ofTokens us) [] [] = y at hread
  cases hread with
  | intro hstmts herrors =>
      cases herrors with
      | nil =>
          exact .program (.mk (List.forall₂_reverse_iff.mpr hstmts))
      | cons herror herrors =>
          exact .errors (List.forall₂_reverse_iff.mpr (.cons herror herrors))

/-- A bare `return` before a line that begins with a minus sign, and the same four lines further
down in other columns; the operand is a string with an embedded name. -/
theorem Program.ofTokens_of_sameLayout_movedDown :
    let ts : List LocatedToken :=
      [(.keyword .returnKw, ⟨0, 6, 1, 1⟩), (.mark .minus, ⟨7, 8, 2, 1⟩),
        (.template [.hole [(.identifier "x", ⟨11, 12, 2, 1⟩), (.eof, ⟨12, 12, 2, 2⟩)]],
          ⟨8, 14, 2, 2⟩), (.eof, ⟨14, 14, 2, 8⟩)]
    let us : List LocatedToken :=
      [(.keyword .returnKw, ⟨20, 26, 5, 3⟩), (.mark .minus, ⟨40, 41, 9, 7⟩),
        (.template [.hole [(.identifier "x", ⟨50, 51, 9, 4⟩), (.eof, ⟨51, 51, 9, 5⟩)]],
          ⟨45, 53, 9, 12⟩), (.eof, ⟨60, 60, 9, 20⟩)]
    SameLayout ts us ∧ Ordered ts ∧ Ordered us ∧
      Program.SameResult (Program.ofTokens ts) (Program.ofTokens us) := by
  intro ts us
  have hhole : SameLayout [(.identifier "x", ⟨11, 12, 2, 1⟩), (.eof, ⟨12, 12, 2, 2⟩)]
      [(.identifier "x", ⟨50, 51, 9, 4⟩), (.eof, ⟨51, 51, 9, 5⟩)] :=
    .cons (.identifier "x") (by decide) (.single .eof)
  have hlayout : SameLayout ts us :=
    .cons (.keyword .returnKw) (by decide) <| .cons (.mark .minus) (by decide) <|
      .cons (.template (.hole hhole .nil)) (by decide) (.single .eof)
  have hts : Ordered ts := by decide
  have hus : Ordered us := by decide
  exact ⟨hlayout, hts, hus, Program.ofTokens_of_sameLayout hlayout hts hus⟩

end ScriptEngine
