import ScriptEngine.Proofs.Grammar.Layout

/-!
# Reading one text after another

What was read before leaves no trace but the nesting counter: from the start of a line between two
statements, with no level left open, a text reads as it does alone.  The two readings differ in the
number of tokens that there were at the start and in the bound of the readers, and neither matters.

A level is left open by a reader that was refused at the limit, and by no other: every reader closes
what it opened, whether it succeeds or fails, and so does one that goes back (`Nests.reached`).
-/

namespace ScriptEngine

/-! ### A text and itself -/

mutual

theorem Token.Alike.refl :
    (t : Token) → t.Alike t
  | .keyword k => .keyword k
  | .mark m => .mark m
  | .int n => .int n
  | .float x => .float x
  | .string s => .string s
  | .template ps => .template (TemplatePart.AllAlike.refl ps)
  | .identifier name => .identifier name
  | .eof => .eof

theorem TemplatePart.AllAlike.refl :
    (ps : List TemplatePart) → TemplatePart.AllAlike ps ps
  | [] => .nil
  | .text s :: ps => .text s (TemplatePart.AllAlike.refl ps)
  | .hole ts :: ps => .hole (SameLayout.refl ts) (TemplatePart.AllAlike.refl ps)

theorem SameLayout.refl :
    (ts : List (Token × Span)) → SameLayout ts ts
  | [] => .nil
  | [(t, _)] => .single (Token.Alike.refl t)
  | (t, _) :: (u, b) :: ts => .cons (Token.Alike.refl t) Iff.rfl (SameLayout.refl ((u, b) :: ts))

end

namespace Grammar

theorem State.Alike.refl
    {s : State} (h : s.Whole) :
    s.Alike s :=
  ⟨.refl _, rfl, rfl, h, h⟩

/-! ### Levels left open -/

/-- The state in which a reading ends, with a result or with an error. -/
def endState {α : Type} : EStateM.Result ParseError State α → State
  | .ok _ s => s
  | .error _ s => s

/-- A place to which reading comes from an earlier one, all levels closed that were opened. -/
structure State.Reached (s t : State) : Prop where
  after : s.After t
  whole : t.Whole
  balanced : s.Balanced t

/-- The readers that open levels, and those that go on when a level was refused. -/
inductive Nests (g : Reader) : {α : Type} → Parse α → Prop
  | statement : Nests g g.statement
  | expression : Nests g g.expression
  | unary : Nests g g.unary
  | type : Nests g g.type
  | callTypeArgs : Nests g (callTypeArgs? g)
  | optionalTypeParams : Nests g (optionalTypeParams g)
  | loopStatement : Nests g (loopStatement g)

/-- The places between the statements of a program; after an error there is one, too. -/
inductive Visits (p : Parse Stmt) (s : State) : State → Prop
  | start : Visits p s s
  | semicolon {t : State} (h : Visits p s t) (hend : t.current.1.isEof = false)
      (hfront : t.current.1.isMark .semicolon = true) : Visits p s t.advance
  | statement {t t' : State} {x : Stmt} (h : Visits p s t) (hend : t.current.1.isEof = false)
      (hfront : t.current.1.isMark .semicolon = false) (hread : p t = .ok x t') : Visits p s t'
  | failed {t t' : State} {e : ParseError} (h : Visits p s t) (hend : t.current.1.isEof = false)
      (hfront : t.current.1.isMark .semicolon = false) (hread : p t = .error e t') :
      Visits p s t'.resume

namespace State.Reached

variable {s t u : State}

theorem refl
    (h : s.Whole) :
    s.Reached s :=
  ⟨.refl s, h, .refl s⟩

theorem trans
    (h : s.Reached t) (h' : t.Reached u) :
    s.Reached u :=
  ⟨h.after.trans h'.after, h'.whole, h.balanced.trans h'.balanced⟩

theorem advance
    (h : s.Reached t) :
    s.Reached t.advance :=
  h.trans ⟨.advance t, h.whole.advance, .advance t⟩

theorem resume
    (h : s.Reached t) :
    s.Reached t.resume :=
  skipToStatement_keeps (P := s.Reached) (fun _ => advance) _ _ h.advance

end State.Reached

section Readers

variable {α β : Type} {k : Nat} {d : α → Prop} {R : α → β → Prop} {s t : State}

theorem Agree.reached {x : EStateM.Result ParseError State α}
    {y : EStateM.Result ParseError State β} (h : Agree d R s t x y) :
    s.Reached (endState x) := by
  cases h with
  | ok _ hstates _ =>
      exact ⟨hstates.left, hstates.alike.left, hstates.balanced⟩
  | error _ _ hstates =>
      exact ⟨hstates.left, hstates.alike.left, hstates.balanced⟩

theorem Alongside.reached {p : Parse α} {q : Parse β}
    (h : Alongside False k d R p q) (hs : s.Whole) (hk : tokensWeight s.rest ≤ k) :
    s.Reached (endState (p s)) :=
  (h (.refl hs) hk False.elim).reached

/-- Whatever a reader comes to, it closes the levels that were not refused. -/
theorem Nests.reached {g : Reader} {p : Parse α}
    (h : Nests g p) (hg : g.Alongside k g) (hs : s.Whole) (hk : tokensWeight s.rest ≤ k) :
    s.Reached (endState (p s)) := by
  cases h with
  | statement =>
      exact hg.statement.reached hs hk
  | expression =>
      exact hg.expression.reached hs hk
  | unary =>
      exact hg.unary.reached hs hk
  | type =>
      exact hg.type.reached hs hk
  | callTypeArgs =>
      exact (Alongside.callTypeArgs? hg).reached hs hk
  | optionalTypeParams =>
      exact (Alongside.optionalTypeParams hg).reached hs hk
  | loopStatement =>
      exact (Alongside.loopStatement hg).down.reached hs hk

end Readers

namespace Visits

variable {p : Parse Stmt} {s t : State}

theorem trans
    {u : State} (h : Visits p t u) (h' : Visits p s t) :
    Visits p s u := by
  induction h with
  | start =>
      exact h'
  | semicolon _ hend hfront ih =>
      exact .semicolon ih hend hfront
  | statement _ hend hfront hread ih =>
      exact .statement ih hend hfront hread
  | failed _ hend hfront hread ih =>
      exact .failed ih hend hfront hread

theorem reached {k : Nat}
    (h : Visits p s t) (hp : Alongside False k allOwe Stmt.Alike p p) (hs : s.Whole)
    (hk : tokensWeight s.rest ≤ k) :
    s.Reached t := by
  have hread {t : State} (ht : s.Reached t) : s.Reached (endState (p t)) :=
    ht.trans (hp.reached ht.whole (Nat.le_trans (tokensWeight_le_of_suffix ht.after.rest) hk))
  induction h with
  | start =>
      exact .refl hs
  | semicolon _ _ _ ih =>
      exact ih.advance
  | statement _ _ _ heq ih =>
      have hend := hread ih
      rwa [heq] at hend
  | failed _ _ _ heq ih =>
      have hend := hread ih
      rw [heq] at hend
      exact hend.resume

/-- After so many rounds, the reading of a program goes on from the place. -/
theorem readStatements_eq
    (h : Visits p s t) :
    ∃ m ys fs, ∀ n, readStatements p (n + m) s [] [] = readStatements p n t ys fs := by
  induction h with
  | start =>
      exact ⟨0, [], [], fun _ => rfl⟩
  | semicolon _ hend hfront ih =>
      obtain ⟨m, ys, fs, heq⟩ := ih
      refine ⟨m + 1, ys, fs, fun n => ?_⟩
      rw [← Nat.add_assoc, Nat.add_right_comm, heq, readStatements_succ, hend, hfront]
      rfl
  | @statement t t' x _ hend hfront hread ih =>
      obtain ⟨m, ys, fs, heq⟩ := ih
      refine ⟨m + 1, x :: ys, fs, fun n => ?_⟩
      rw [← Nat.add_assoc, Nat.add_right_comm, heq, readStatements_succ, hend, hfront, hread]
      rfl
  | @failed t t' e _ hend hfront hread ih =>
      obtain ⟨m, ys, fs, heq⟩ := ih
      refine ⟨m + 1, ys, e :: fs, fun n => ?_⟩
      rw [← Nat.add_assoc, Nat.add_right_comm, heq, readStatements_succ, hend, hfront, hread]
      rfl

end Visits

/-! ### Statements read so far -/

/-- From one state, statements are read without an error until another state is reached. -/
inductive Reads (p : Parse Stmt) : State → List Stmt → State → Prop
  | here (s : State) : Reads p s [] s
  | semicolon {s t : State} {xs : List Stmt} (hfront : s.current.1 = .mark .semicolon)
      (hrest : Reads p s.advance xs t) : Reads p s xs t
  | statement {s s' t : State} {x : Stmt} {xs : List Stmt} (hend : s.current.1.isEof = false)
      (hfront : s.current.1.isMark .semicolon = false) (hread : p s = .ok x s')
      (hrest : Reads p s' xs t) : Reads p s (x :: xs) t

/-- Reading the text `us` behind the text `ts` comes to `us` at the start of a line, between two
statements and with no level left open; the statements before it are `xs`. -/
def Reaches (ts us : List LocatedToken) (xs : List Stmt) : Prop :=
  ∃ t : State, Reads (readersFor (ts ++ us)).statement (State.ofTokens (ts ++ us)) xs t ∧
    t.rest = us ∧ t.joinsLine = false ∧ t.depth = 0

variable {p : Parse Stmt} {k : Nat} {s t : State} {xs : List Stmt}

theorem readStatements_append
    (n : Nat) (s : State) (ys : List Stmt) (es : List ParseError) :
    readStatements p n s ys es =
      ((readStatements p n s [] es).1 ++ ys, (readStatements p n s [] es).2) := by
  induction n generalizing s ys es with
  | zero =>
      rfl
  | succ n ih =>
      rw [readStatements_succ, readStatements_succ]
      split
      · rfl
      split
      · exact ih _ _ _
      · cases p s with
        | ok x s' =>
            dsimp only
            rw [ih _ (x :: ys), ih _ [x], List.append_assoc]
            rfl
        | error e s' =>
            exact ih _ _ _

/-- A statement read from a place, with what stays of the place. -/
theorem statement_onward
    {x : Stmt} {s' : State} (hp : Alongside False k allOwe Stmt.Alike p p) (hs : s.Whole)
    (hk : tokensWeight s.rest ≤ k) (hread : p s = .ok x s') :
    x.Alike x ∧ Onward s s s' s' ∧ s'.rest.length < s.rest.length := by
  have h := hp (.refl hs) hk False.elim
  rw [hread] at h
  cases h with
  | ok hresult hstates hpaid =>
      exact ⟨hresult, hstates, hpaid trivial⟩

/-- Statements that were read take no more rounds than the tokens they consumed. -/
theorem Reads.readStatements_eq
    (h : Reads p s xs t) (hp : Alongside False k allOwe Stmt.Alike p p) (hs : s.Whole)
    (hk : tokensWeight s.rest ≤ k) {n : Nat} (hn : s.rest.length ≤ n) :
    s.After t ∧ t.Whole ∧ List.Forall₂ Stmt.Alike xs xs ∧ ∃ m, t.rest.length ≤ m ∧
      ∀ ys es, readStatements p n s ys es = readStatements p m t (xs.reverse ++ ys) es := by
  induction h generalizing n with
  | here s =>
      exact ⟨.refl s, hs, .nil, n, hn, fun _ _ => rfl⟩
  | @semicolon s t xs hfront _ ih =>
      have hnext := (State.Alike.refl hs).advance
      have hlt := hs.advance_length (by rw [hfront]; rfl)
      obtain ⟨n, rfl⟩ := Nat.exists_eq_add_of_lt (Nat.lt_of_lt_of_le hlt hn)
      obtain ⟨hafter, ht, hxs, m, hm, heq⟩ := ih hnext.alike.left
        (Nat.le_trans (tokensWeight_le_of_suffix hnext.left.rest) hk) (Nat.le_add_right _ n)
      refine ⟨hnext.left.trans hafter, ht, hxs, m, hm, fun ys es => ?_⟩
      rw [readStatements_succ, hfront]
      exact heq ys es
  | @statement s s' t x xs hend hfront hread _ ih =>
      obtain ⟨hx, hnext, hlt⟩ := statement_onward hp hs hk hread
      obtain ⟨n, rfl⟩ := Nat.exists_eq_add_of_lt (Nat.lt_of_lt_of_le hlt hn)
      obtain ⟨hafter, ht, hxs, m, hm, heq⟩ := ih hnext.alike.left
        (Nat.le_trans (tokensWeight_le_of_suffix hnext.left.rest) hk) (Nat.le_add_right _ n)
      refine ⟨hnext.left.trans hafter, ht, .cons hx hxs, m, hm, fun ys es => ?_⟩
      rw [readStatements_succ, hend, hfront, hread, List.reverse_cons, List.append_assoc]
      exact heq (x :: ys) es

end Grammar

/-- A program with statements in front of its own. -/
def Program.after (xs : List Stmt) (p : Program) : Program :=
  { p with statements := xs ++ p.statements }

open Grammar in
/-- The text `us` reads behind another text as it does alone, whatever was read before. -/
theorem Program.ofTokens_behind
    {ts us vs : List LocatedToken} {xs ys : List Stmt} {a : Span}
    (hlast : us.getLast? = some (.eof, a)) (hlayout : SameLayout us vs)
    (hordered : Ordered (ts ++ us)) (hordered' : Ordered vs) (hreaches : Reaches ts us xs)
    (hstmts : List.Forall₂ Stmt.Alike xs ys) :
    Program.SameResult (Program.ofTokens (ts ++ us))
      ((Program.ofTokens vs).map (Program.after ys)) := by
  obtain ⟨t, hreads, rfl, hline, hdepth⟩ := hreaches
  have hreaders := readersFor_alongside (State.weight_ofTokens (ts ++ t.rest))
    (State.weight_ofTokens (ts ++ t.rest))
  obtain ⟨-, ht, -, m, hm, heq⟩ := hreads.readStatements_eq hreaders.statement
    (State.whole_ofTokens _) (Nat.le_refl _) (Nat.le_succ _)
  have hrest : (State.ofTokens t.rest).rest = t.rest := by
    simp only [State.ofTokens, hlast]
  have hstates : t.Alike (State.ofTokens vs) := by
    have halike := State.Alike.ofTokens hlayout
    exact ⟨hrest ▸ halike.layout, hline, hdepth, ht, halike.right⟩
  have hweight : tokensWeight t.rest ≤ tokensWeight (ts ++ t.rest) + 1 := by
    rw [tokensWeight_append]
    omega
  have hweight' : tokensWeight t.rest ≤ tokensWeight vs + 1 := by
    rw [tokensWeight_eq hlayout]
    exact Nat.le_succ _
  have hread := readStatements_alike (readersFor_alongside hweight hweight').statement
    hstates (hordered.suffix (List.suffix_append ts t.rest)) (ordered_ofTokens hordered')
    (Nat.le_refl _) hm (Nat.le_succ _) .nil .nil
  unfold Program.ofTokens
  dsimp only
  rw [heq, readStatements_append]
  generalize readStatements _ m t [] [] = x at hread
  generalize readStatements _ _ (State.ofTokens vs) [] [] = y at hread
  cases hread with
  | @intro xs' ys' es fs hread herrors =>
      cases herrors with
      | nil =>
          refine .program (.mk ?_)
          rw [List.append_nil, List.reverse_append, List.reverse_reverse]
          exact List.rel_append hstmts (List.forall₂_reverse_iff.mpr hread)
      | cons herror herrors =>
          exact .errors (List.forall₂_reverse_iff.mpr (.cons herror herrors))

open Grammar in
/-- Whatever a reader ends with, the nesting depth is what it was where the reader began, and one more
for each reader that was refused meanwhile.  So between the statements of a program the depth is the
number of readers refused so far. -/
theorem Program.ofTokens_balanced
    (ts : List LocatedToken) :
    (∀ (s : State) (base : Reader) (n : Nat), (State.ofTokens ts).After s → s.rest ≠ [] →
      3 * tokensWeight s.rest ≤ n →
        ∀ (α : Type) (p : Parse α), Nests (readersOver base n) p → s.Balanced (endState (p s))) ∧
      ∀ t, Visits (readersFor ts).statement (State.ofTokens ts) t → t.depth = t.refused := by
  constructor
  · intro s base n hafter hne hn α p hp
    have hs := (State.whole_ofTokens ts).of_suffix hafter hne
    exact (hp.reached (readersOver_self base hn) hs (Nat.le_refl _)).balanced
  · intro t ht
    have hg := readersFor_alongside (State.weight_ofTokens ts) (State.weight_ofTokens ts)
    obtain ⟨n, hrefused, hdepth⟩ :=
      (ht.reached hg.statement (State.whole_ofTokens ts) (Nat.le_refl _)).balanced
    exact hdepth.trans hrefused.symm

open Grammar in
/-- In a comparison that stands at the limit, the second operand is tried as a type argument.  The
attempt is refused and given up, and one level is left open. -/
theorem Program.ofTokens_balanced_refused :
    let ts : List LocatedToken :=
      [(.identifier "a", ⟨0, 1, 1, 1⟩), (.mark .less, ⟨2, 3, 1, 3⟩),
        (.identifier "b", ⟨4, 5, 1, 5⟩), (.eof, ⟨5, 5, 1, 6⟩)]
    let s : State := ⟨ts.tail, some ⟨0, 1, 1, 1⟩, maxDepth, 4, 0⟩
    let s' := endState (callTypeArgs? (readersFor ts) s)
    s.Balanced s' ∧ s'.rest = s.rest ∧ s'.depth = maxDepth + 1 ∧ s'.refused = 1 ∧
      ∃ t, Visits (readersFor ts).statement (State.ofTokens ts) t ∧ t.current.1.isEof ∧
        t.depth = t.refused := by
  intro ts s s'
  obtain ⟨hplaces, hvisits⟩ := ofTokens_balanced ts
  have hafter : (State.ofTokens ts).After s := ⟨List.suffix_cons _ _, rfl⟩
  have hbalanced := hplaces s (readers 0) (4 * tokensWeight ts + 16) hafter (List.cons_ne_nil _ _)
    (by decide)
  rw [readersOver_readers] at hbalanced
  have hread : Visits (readersFor ts).statement (State.ofTokens ts)
      ⟨[(.eof, ⟨5, 5, 1, 6⟩)], some ⟨4, 5, 1, 5⟩, 0, 4, 0⟩ :=
    .statement .start rfl rfl rfl
  exact ⟨hbalanced _ _ .callTypeArgs, rfl, rfl, rfl, _, hread, rfl, hvisits _ hread⟩

end ScriptEngine
