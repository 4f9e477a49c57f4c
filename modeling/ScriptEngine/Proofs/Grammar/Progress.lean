import ScriptEngine.Proofs.Grammar.Composition

/-!
# Reading makes progress

From any place in any sequence of tokens a reader ends at a later place, or with an error at a place
that is not earlier (`Proceeds`).  Repetitions have a bound on their rounds, and so have the calls of
readers by each other.  Neither is ever reached: an error is always `InBounds`, and what stands behind
the bound on calls may be anything, even a reader that spoils the state.

A reader that runs alongside itself proceeds (`Agree.proceeds`).  So does the reading of a program:
after a statement it is further down, and after an error it goes on behind the token where the error
was found.  `Runs` and `Skips` tell it without any bound, and what is told is what is read
(`exists_runs`).
-/

namespace ScriptEngine
namespace Grammar

/-- Reading from a place ends at a place in the same text that is not earlier, with a result and at
least so many tokens consumed, or with an error that is not that of a bound. -/
inductive Proceeds {α : Type} (least : Nat) (s : State) :
    EStateM.Result ParseError State α → Prop
  | ok {a : α} {s' : State} (hafter : s.After s') (hwhole : s'.Whole)
      (hpaid : s'.rest.length + least ≤ s.rest.length) : Proceeds least s (.ok a s')
  | error {e : ParseError} {s' : State} (hafter : s.After s') (hwhole : s'.Whole)
      (hbound : e.InBounds) : Proceeds least s (.error e s')

/-- The readers that repeat something, or that try something and go back when it fails. -/
inductive Repeats (g : Reader) : {α : Type} → Parse α → Prop
  | block (terminators : List Keyword) : Repeats g (block g terminators)
  | members (owner : String) (context : OwnerKind) : Repeats g (members g owner context)
  | enumConstants (owner : String) : Repeats g (repeatRead (enumRound g owner) [])
  | switchCases : Repeats g (switchStatement g)
  | selectCases : Repeats g (selectStatement g)
  | caseValues : Repeats g (casePattern g)
  | catches : Repeats g (tryStatement g)
  | elifs : Repeats g (branchStatement g)
  | bindings : Repeats g (forStatement g)
  | modifiers : Repeats g modifiers
  | permits : Repeats g permits
  | params : Repeats g (params g)
  | arguments : Repeats g (arguments g)
  | elements : Repeats g (arrayLiteral g)
  | entries : Repeats g (mapLiteral g)
  | operators (least : Nat) : Repeats g (g.operators least)
  | accesses : Repeats g (access g)
  | unionMembers : Repeats g (typeExpr g)
  | typeArgs : Repeats g (typeArgs g)
  | typeParams : Repeats g (typeParams g)
  | typeList : Repeats g (typeList g)
  | callTypeArgs : Repeats g (callTypeArgs? g)
  | optionalTypeParams : Repeats g (optionalTypeParams g)
  | loopTest : Repeats g (loopTest g)

section Readers

variable {α β : Type} {k : Nat} {d : α → Prop} {R : α → β → Prop} {s t : State}

theorem Agree.proceeds {x : EStateM.Result ParseError State α}
    {y : EStateM.Result ParseError State β} (h : Agree d R s t x y) :
    Proceeds 0 s x := by
  cases h with
  | ok _ hstates _ =>
      exact .ok hstates.left hstates.alike.left hstates.left.rest.length_le
  | error _ hbound hstates =>
      exact .error hstates.left hstates.alike.left hbound

theorem Agree.advances {x : EStateM.Result ParseError State α}
    {y : EStateM.Result ParseError State β} (h : Agree allOwe R s t x y) :
    Proceeds 1 s x := by
  cases h with
  | ok _ hstates hpaid =>
      exact .ok hstates.left hstates.alike.left (hpaid trivial)
  | error _ hbound hstates =>
      exact .error hstates.left hstates.alike.left hbound

theorem Alongside.proceeds {p : Parse α} {q : Parse β}
    (h : Alongside False k d R p q) (hs : s.Whole) (hk : tokensWeight s.rest ≤ k) :
    Proceeds 0 s (p s) :=
  (h (.refl hs) hk False.elim).proceeds

theorem Alongside.advances {p : Parse α} {q : Parse β}
    (h : Alongside False k allOwe R p q) (hs : s.Whole) (hk : tokensWeight s.rest ≤ k) :
    Proceeds 1 s (p s) :=
  (h (.refl hs) hk False.elim).advances

/-- What is repeated consumes tokens, and what is tried is read from the place it goes back to. -/
theorem Repeats.proceeds {g : Reader} {p : Parse α}
    (h : Repeats g p) (hg : g.Alongside k g) (hs : s.Whole) (hk : tokensWeight s.rest ≤ k) :
    Proceeds 0 s (p s) := by
  cases h with
  | block terminators =>
      exact (Alongside.block hg terminators).proceeds hs hk
  | members owner context =>
      exact (Alongside.members hg owner context).proceeds hs hk
  | enumConstants owner =>
      exact (Alongside.gather fun _ _ h => Alongside.enumRound hg owner h).proceeds hs hk
  | switchCases =>
      exact (Alongside.switchStatement hg).down.proceeds hs hk
  | selectCases =>
      exact (Alongside.selectStatement hg).down.proceeds hs hk
  | caseValues =>
      exact (Alongside.casePattern hg).proceeds hs hk
  | catches =>
      exact (Alongside.tryStatement hg).down.proceeds hs hk
  | elifs =>
      exact (Alongside.branchStatement hg).down.proceeds hs hk
  | bindings =>
      exact (Alongside.forStatement hg).down.proceeds hs hk
  | modifiers =>
      exact Alongside.modifiers.proceeds hs hk
  | permits =>
      exact Alongside.permits.proceeds hs hk
  | params =>
      exact (Alongside.params hg).down.proceeds hs hk
  | arguments =>
      exact (Alongside.arguments hg).down.proceeds hs hk
  | elements =>
      exact (Alongside.arrayLiteral hg).down.proceeds hs hk
  | entries =>
      exact (Alongside.mapLiteral hg).down.proceeds hs hk
  | operators least =>
      exact (hg.operators least).proceeds hs hk
  | accesses =>
      exact (Alongside.access hg).down.proceeds hs hk
  | unionMembers =>
      exact (Alongside.typeExpr hg).down.proceeds hs hk
  | typeArgs =>
      exact (Alongside.typeArgs hg).proceeds hs hk
  | typeParams =>
      exact (Alongside.typeParams hg).proceeds hs hk
  | typeList =>
      exact (Alongside.typeList hg).proceeds hs hk
  | callTypeArgs =>
      exact (Alongside.callTypeArgs? hg).proceeds hs hk
  | optionalTypeParams =>
      exact (Alongside.optionalTypeParams hg).proceeds hs hk
  | loopTest =>
      exact (Alongside.loopTest hg).proceeds hs hk

end Readers

/-! ### Programs -/

/-- Tokens are passed over, however many there are, up to the end of the text or one on another line
that starts a statement. -/
inductive Skips (line : Nat) : State → State → Prop
  | here {s : State} (hstop : s.current.1.isEof ∨
      (s.current.2.line ≠ line ∧ opensStatement s.current.1)) : Skips line s s
  | next {s t : State} (hgoes : ¬ (s.current.1.isEof ∨
      (s.current.2.line ≠ line ∧ opensStatement s.current.1))) (hrest : Skips line s.advance t) :
      Skips line s t

/-- A program is read to the end of the text, however many statements and errors there are. -/
inductive Runs (p : Parse Stmt) : State → List Stmt → List ParseError → Prop
  | ended {s : State} (hend : s.current.1.isEof = true) : Runs p s [] []
  | semicolon {s : State} {xs : List Stmt} {es : List ParseError}
      (hend : s.current.1.isEof = false) (hfront : s.current.1.isMark .semicolon = true)
      (hrest : Runs p s.advance xs es) : Runs p s xs es
  | statement {s s' : State} {x : Stmt} {xs : List Stmt} {es : List ParseError}
      (hend : s.current.1.isEof = false) (hfront : s.current.1.isMark .semicolon = false)
      (hread : p s = .ok x s') (hrest : Runs p s' xs es) : Runs p s (x :: xs) es
  | failed {s s' t : State} {e : ParseError} {xs : List Stmt} {es : List ParseError}
      (hend : s.current.1.isEof = false) (hfront : s.current.1.isMark .semicolon = false)
      (hread : p s = .error e s') (hskip : Skips s'.current.2.line s'.advance t)
      (hrest : Runs p t xs es) : Runs p s xs (e :: es)

variable {s : State} {p : Parse Stmt} {k : Nat}

theorem Skips.onward {line : Nat} {t : State}
    (h : Skips line s t) (hs : s.Whole) :
    s.After t ∧ t.Whole := by
  induction h with
  | here _ =>
      exact ⟨.refl _, hs⟩
  | next _ _ ih =>
      obtain ⟨hafter, ht⟩ := ih hs.advance
      exact ⟨(State.After.advance _).trans hafter, ht⟩

/-- There is a step for each token that is left. -/
theorem skips_skipToStatement {n : Nat}
    (line : Nat) (hs : s.Whole) (hn : s.rest.length ≤ n) :
    Skips line s (skipToStatement line n s) := by
  induction n generalizing s with
  | zero =>
      exact absurd (Nat.le_zero.mp hn) (Nat.ne_of_gt (List.length_pos_of_ne_nil hs.ne_nil))
  | succ n ih =>
      rw [skipToStatement_succ]
      split
      next hstop =>
        exact .here hstop
      next hgoes =>
        have hlt := hs.advance_length (Bool.eq_false_iff.mpr (not_or.mp hgoes).1)
        exact .next hgoes (ih hs.advance (by omega))

theorem skips_resume
    (hs : s.Whole) :
    Skips s.current.2.line s.advance s.resume :=
  skips_skipToStatement _ hs.advance (State.After.advance s).rest.length_le

/-- A place behind an error is behind the place where the reading began. -/
theorem resume_length_lt {s' : State}
    (hs : s.Whole) (hend : s.current.1.isEof = false) (hafter : s.After s') :
    s'.resume.rest.length < s.rest.length := by
  have hresume := resume_length s'
  have hle := hafter.rest.length_le
  have hlt := hs.advance_length hend
  have hpos := List.length_pos_of_ne_nil hs.advance.ne_nil
  omega

/-- Where every statement proceeds, a bound that allows for one round a token leaves nothing out. -/
theorem exists_runs {n : Nat}
    (hp : ∀ s, s.Whole → tokensWeight s.rest ≤ k → Proceeds 1 s (p s)) (hs : s.Whole)
    (hk : tokensWeight s.rest ≤ k) (hn : s.rest.length ≤ n) :
    ∃ xs es, Runs p s xs es ∧ (∀ e ∈ es, e.InBounds) ∧
      ∀ ys fs, readStatements p n s ys fs = (xs.reverse ++ ys, es.reverse ++ fs) := by
  induction n generalizing s with
  | zero =>
      exact absurd (Nat.le_zero.mp hn) (Nat.ne_of_gt (List.length_pos_of_ne_nil hs.ne_nil))
  | succ n ih =>
      have hrest {t : State} (hafter : s.After t) (ht : t.Whole)
          (hlt : t.rest.length < s.rest.length) :=
        ih ht (Nat.le_trans (tokensWeight_le_of_suffix hafter.rest) hk) (by omega)
      simp only [readStatements_succ]
      cases hend : s.current.1.isEof with
      | true =>
          exact ⟨[], [], .ended hend, nofun, fun _ _ => rfl⟩
      | false =>
      cases hfront : s.current.1.isMark .semicolon with
      | true =>
          obtain ⟨xs, es, hruns, hbound, heq⟩ :=
            hrest (.advance s) hs.advance (hs.advance_length hend)
          exact ⟨xs, es, .semicolon hend hfront hruns, hbound, heq⟩
      | false =>
      have hread := hp s hs hk
      cases hx : p s with
      | ok x s' =>
          rw [hx] at hread
          cases hread with
          | ok hafter hwhole hpaid =>
              obtain ⟨xs, es, hruns, hbound, heq⟩ := hrest hafter hwhole hpaid
              refine ⟨x :: xs, es, .statement hend hfront hx hruns, hbound, fun ys fs => ?_⟩
              rw [List.reverse_cons, List.append_assoc]
              exact heq (x :: ys) fs
      | error e s' =>
          rw [hx] at hread
          cases hread with
          | error hafter hwhole hinner =>
              have hskips := skips_resume hwhole
              obtain ⟨hresume, ht⟩ := hskips.onward hwhole.advance
              obtain ⟨xs, es, hruns, hbound, heq⟩ :=
                hrest (hafter.trans ((State.After.advance s').trans hresume)) ht
                  (resume_length_lt hs hend hafter)
              refine ⟨xs, e :: es, .failed hend hfront hx hskips hruns,
                List.forall_mem_cons.mpr ⟨hinner, hbound⟩, fun ys fs => ?_⟩
              rw [List.reverse_cons, List.append_assoc]
              exact heq ys (e :: fs)

/-- What a program is read as is what a run over its tokens finds, without any bound. -/
theorem exists_runs_ofTokens
    (ts : List LocatedToken) :
    ∃ xs es, Runs (readersFor ts).statement (State.ofTokens ts) xs es ∧ (∀ e ∈ es, e.InBounds) ∧
      (es = [] ∧ (∃ span, Program.ofTokens ts = .ok ⟨xs, span⟩) ∨
        es ≠ [] ∧ Program.ofTokens ts = .error es) := by
  have hg := readersFor_alongside (State.weight_ofTokens ts) (State.weight_ofTokens ts)
  obtain ⟨xs, es, hruns, hbound, heq⟩ := exists_runs
    (fun s hs hk => hg.statement.advances hs hk) (State.whole_ofTokens ts) (Nat.le_refl _)
    (Nat.le_succ (State.ofTokens ts).rest.length)
  refine ⟨xs, es, hruns, hbound, ?_⟩
  have hread := heq [] []
  rw [List.append_nil, List.append_nil] at hread
  unfold Program.ofTokens
  dsimp only
  rw [hread]
  cases es with
  | nil =>
      exact .inl ⟨rfl, _, by rw [List.reverse_reverse]; rfl⟩
  | cons e es =>
      refine .inr ⟨List.cons_ne_nil _ _, ?_⟩
      obtain ⟨f, fs, hreverse⟩ :=
        List.exists_cons_of_ne_nil (List.reverse_ne_nil_iff.mpr (List.cons_ne_nil e es))
      rw [hreverse]
      show Except.error (f :: fs).reverse = _
      rw [← hreverse, List.reverse_reverse]

end Grammar

open Grammar in
/-- From every place in a sequence of tokens, and whatever the readers behind the bound are: a
statement, an expression or a type that is read consumes a token, and one that fails leaves the place
no earlier; every repetition and every attempt ends, and so do the parts of a template.  So a program
is read to the end of its text. -/
theorem Program.ofTokens_progresses
    (ts : List LocatedToken) :
    (∀ (s : State) (base : Reader) (n : Nat), (State.ofTokens ts).After s → s.rest ≠ [] →
      3 * tokensWeight s.rest ≤ n →
        Proceeds 1 s ((readersOver base n).statement s) ∧
        Proceeds 1 s ((readersOver base n).expression s) ∧
        Proceeds 1 s ((readersOver base n).type s) ∧
        (∀ (α : Type) (p : Parse α), Repeats (readersOver base n) p → Proceeds 0 s (p s)) ∧
        ∀ ps, 3 * partsWeight ps ≤ n → Proceeds 0 s (Grammar.templateParts (readersOver base n) ps s)) ∧
      ∃ xs es, Runs (readersFor ts).statement (State.ofTokens ts) xs es ∧
        (∀ e ∈ es, e.InBounds) ∧
          (es = [] ∧ (∃ span, Program.ofTokens ts = .ok ⟨xs, span⟩) ∨
            es ≠ [] ∧ Program.ofTokens ts = .error es) := by
  constructor
  · intro s base n hafter hne hn
    have hs := (State.whole_ofTokens ts).of_suffix hafter hne
    have hg := readersOver_self base hn
    refine ⟨hg.statement.advances hs (Nat.le_refl _), hg.expression.advances hs (Nat.le_refl _),
      hg.type.advances hs (Nat.le_refl _), fun α p hp => hp.proceeds hg hs (Nat.le_refl _),
      fun ps hps => ?_⟩
    have hg' := readersOver_self base (k := max (tokensWeight s.rest) (partsWeight ps)) (n := n)
      (by omega)
    exact (Alongside.templateParts hg' (.refl ps) (Nat.le_max_right _ _)).proceeds hs
      (Nat.le_max_left _ _)
  · exact exists_runs_ofTokens ts

open Grammar in
/-- A condition that breaks off, a call on the next line, and a template with a hole that breaks
off. -/
theorem Program.ofTokens_progresses_malformed :
    let ts : List LocatedToken :=
      [(.keyword .ifKw, ⟨0, 2, 1, 1⟩), (.identifier "a", ⟨3, 4, 1, 4⟩), (.mark .less, ⟨5, 6, 1, 6⟩),
        (.mark .comma, ⟨7, 8, 1, 8⟩), (.identifier "f", ⟨9, 10, 2, 1⟩),
        (.mark .leftParen, ⟨10, 11, 2, 2⟩), (.mark .rightParen, ⟨11, 12, 2, 3⟩),
        (.template [.hole [(.mark .plus, ⟨15, 16, 3, 3⟩)]], ⟨13, 18, 3, 1⟩)]
    let s := State.ofTokens ts
    Proceeds 1 s ((readersFor ts).statement s) ∧ Proceeds 0 s (block (readersFor ts) [.endKw] s) ∧
      ∃ xs es, Runs (readersFor ts).statement s xs es ∧ Program.ofTokens ts = .error es ∧
        es.length = 2 := by
  intro ts s
  obtain ⟨hplaces, xs, es, hruns, -, hresult⟩ := ofTokens_progresses ts
  have hweight : 3 * tokensWeight s.rest ≤ 4 * tokensWeight ts + 16 := by decide
  obtain ⟨hstatement, -, -, hrepeats, -⟩ :=
    hplaces s (readers 0) (4 * tokensWeight ts + 16) (.refl s) (List.cons_ne_nil _ _) hweight
  rw [readersOver_readers] at hstatement hrepeats
  refine ⟨hstatement, hrepeats _ _ (.block _), xs, es, hruns, ?_⟩
  have hcount : (match Program.ofTokens ts with
      | .ok _ => 0
      | .error es => es.length) = 2 := by
    decide +kernel
  rcases hresult with ⟨-, span, hok⟩ | ⟨-, herror⟩
  · rw [hok] at hcount
    cases hcount
  · rw [herror] at hcount
    exact ⟨herror, hcount⟩

end ScriptEngine
