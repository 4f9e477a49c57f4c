import Mathlib.Data.List.TakeWhile
import ScriptEngine.Proofs.Grammar.Alongside

/-!
# Precedence

An operator between two operands binds more or less tightly.  Numbers that are joined by operators
can be grouped in many ways.  In one of them, and in no other, an operator on the left of another
one binds at least as tightly, and one on the right binds more tightly (`InfixTree.eq_of_ordered`):
its root is the last of the loosest operators.

Precedence climbing finds this tree (`expression_groups`).  A reader that goes down to some level
takes the operators up to the first one that is looser (`Climbs`).  Each round of its loop takes one
operator and what is tighter than that; so the next operator is never tighter than the root of what
was read, and the tree so far may go to its left.
-/

namespace ScriptEngine

/-! ### Operators and trees -/

/-- The operators that stand between two operands. -/
inductive Infix
  | binary (op : BinaryOp)
  | logical (op : LogicalOp)
  | range

namespace Infix

def mark : Infix → Mark
  | binary .add => .plus
  | binary .subtract => .minus
  | binary .multiply => .star
  | binary .divide => .slash
  | binary .modulo => .percent
  | binary .equal => .equalEqual
  | binary .notEqual => .bangEqual
  | binary .less => .less
  | binary .lessEqual => .lessEqual
  | binary .greater => .greater
  | binary .greaterEqual => .greaterEqual
  | logical .and => .ampAmp
  | logical .or => .pipePipe
  | range => .dotDotDot

/-- How tightly an operator binds. -/
def level : Infix → Nat
  | logical .or => 2
  | logical .and => 3
  | binary .equal | binary .notEqual => 4
  | binary .less | binary .lessEqual | binary .greater | binary .greaterEqual => 5
  | range => 6
  | binary .add | binary .subtract => 7
  | binary .multiply | binary .divide | binary .modulo => 8

/-- The expression of an operator with its operands. -/
def apply (left right : Expr) (span : Span) : Infix → Expr
  | binary op => .binary op left right span
  | logical op => .logical op left right span
  | range => .range left right span

theorem level_bounds (op : Infix) :
    1 ≤ op.level ∧ op.level ≤ 8 := by
  rcases op with op | op | _
  · cases op <;> decide
  · cases op <;> decide
  · decide

end Infix

/-- Numbers that are joined by operators, two at a time. -/
inductive InfixTree
  | number (value : Int64)
  | node (op : Infix) (left right : InfixTree)

/-- An expression is a tree of numbers and operators. -/
inductive Expr.Shows : Expr → InfixTree → Prop
  | number {x : Int64} {span : Span} : Expr.Shows (.int x span) (.number x)
  | node {op : Infix} {left right : Expr} {span : Span} {t u : InfixTree} :
      left.Shows t → right.Shows u → Expr.Shows (op.apply left right span) (.node op t u)

namespace InfixTree

/-- The number on the far left. -/
def first : InfixTree → Int64
  | number x => x
  | node _ l _ => l.first

/-- The operators from left to right, each with the number behind it. -/
def links : InfixTree → List (Infix × Int64)
  | number _ => []
  | node op l r => l.links ++ (op, r.first) :: r.links

/-- A tree is a number or its root binds at least so tightly. -/
def Tight (least : Nat) : InfixTree → Prop
  | number _ => True
  | node op _ _ => least ≤ op.level

/-- At every node the left one binds at least as tightly, and the right one more tightly. -/
def Ordered : InfixTree → Prop
  | number _ => True
  | node op l r => l.Tight op.level ∧ r.Tight (op.level + 1) ∧ l.Ordered ∧ r.Ordered

variable {t u : InfixTree} {least : Nat}

/-- The root of an ordered tree is loosest. -/
theorem Ordered.le_level
    (ht : t.Ordered) (hleast : t.Tight least) :
    ∀ x ∈ t.links, least ≤ x.1.level := by
  induction t generalizing least with
  | number =>
      exact nofun
  | node op l r ihl ihr =>
      obtain ⟨hl, hr, hl', hr'⟩ := ht
      have hroot : least ≤ op.level := hleast
      intro x hx
      rcases List.mem_append.mp hx with hx | hx
      · exact Nat.le_trans hroot (ihl hl' hl x hx)
      · rcases List.mem_cons.mp hx with rfl | hx
        · exact hroot
        · have := ihr hr' hr x hx
          omega

/-- The last of the loosest operators is one place in a sequence. -/
theorem eq_of_append_cons_eq
    {xs ys xs' ys' : List (Infix × Int64)} {a b : Infix × Int64}
    (h : xs ++ a :: ys = xs' ++ b :: ys')
    (hxs : ∀ x ∈ xs, a.1.level ≤ x.1.level) (hys : ∀ y ∈ ys, a.1.level + 1 ≤ y.1.level)
    (hxs' : ∀ x ∈ xs', b.1.level ≤ x.1.level) (hys' : ∀ y ∈ ys', b.1.level + 1 ≤ y.1.level) :
    xs = xs' ∧ a = b ∧ ys = ys' := by
  rcases List.append_eq_append_iff.mp h with ⟨as, rfl, htail⟩ | ⟨as, rfl, htail⟩
  · cases as with
    | nil =>
        simpa using htail
    | cons c cs =>
        -- the second place would be behind the first one, and tighter
        simp only [List.cons_append, List.cons.injEq] at htail
        obtain ⟨rfl, rfl⟩ := htail
        have hbehind := hys b (by simp)
        have hbefore := hxs' a (by simp)
        omega
  · cases as with
    | nil =>
        simpa [eq_comm] using htail
    | cons c cs =>
        simp only [List.cons_append, List.cons.injEq] at htail
        obtain ⟨rfl, rfl⟩ := htail
        have hbehind := hys' a (by simp)
        have hbefore := hxs b (by simp)
        omega

/-- A sequence of numbers and operators is that of one ordered tree at most. -/
theorem eq_of_ordered
    (ht : t.Ordered) (hu : u.Ordered) (hfirst : t.first = u.first) (hlinks : t.links = u.links) :
    t = u := by
  induction t generalizing u with
  | number x =>
      cases u with
      | number y =>
          exact congrArg number hfirst
      | node =>
          simp [links] at hlinks
  | node op l r ihl ihr =>
      cases u with
      | number =>
          simp [links] at hlinks
      | node op' l' r' =>
          obtain ⟨hl, hr, hlo, hro⟩ := ht
          obtain ⟨hl', hr', hlo', hro'⟩ := hu
          obtain ⟨hleft, hroot, hright⟩ := eq_of_append_cons_eq hlinks (hlo.le_level hl)
            (hro.le_level hr) (hlo'.le_level hl') (hro'.le_level hr')
          obtain ⟨rfl, hnext⟩ := Prod.mk.inj hroot
          rw [ihl hlo hlo' hfirst hleft, ihr hro hro' hnext hright]

end InfixTree

namespace Grammar

open InfixTree

/-! ### Tokens on a line -/

/-- The tokens of operators, each with the number behind it, on a line. -/
inductive Chain (line : Nat) : List (Infix × Int64) → List LocatedToken → Prop
  | nil : Chain line [] []
  | cons {op : Infix} {x : Int64} {a b : Span} {links : List (Infix × Int64)}
      {ts : List LocatedToken} :
      a.line = line → b.line = line → Chain line links ts →
        Chain line ((op, x) :: links) ((.mark op.mark, a) :: (.int x, b) :: ts)

/-- A token goes on with no expression on a line: on no line is it a dot, and on this one it is no
operator and opens neither arguments nor an index. -/
structure Quits (line : Nat) (t : LocatedToken) : Prop where
  dot : t.1 ≠ .mark .dot
  operator : t.2.line = line → operatorLevel? t.1 = none
  opening : t.2.line = line → t.1 ≠ .mark .leftParen ∧ t.1 ≠ .mark .leftBracket

/-- What is left behind an operand on a line: links, and a token that goes on with nothing. -/
structure State.Behind (line depth : Nat) (links : List (Infix × Int64)) (tail : List LocatedToken)
    (s : State) : Prop where
  rest : ∃ ts, Chain line links ts ∧ s.rest = ts ++ tail
  last : ∃ l, s.last = some l ∧ l.line = line
  room : s.rest.length ≤ s.size
  depth : s.depth = depth

/-- A number in front on a line, and behind it links and a token that goes on with nothing. -/
structure State.Ahead (line depth : Nat) (x : Int64) (links : List (Infix × Int64))
    (tail : List LocatedToken) (s : State) : Prop where
  rest : ∃ a ts, a.line = line ∧ Chain line links ts ∧ s.rest = (.int x, a) :: (ts ++ tail)
  room : s.rest.length ≤ s.size
  depth : s.depth = depth

section Reading

variable {g : Reader} {line depth least n : Nat} {links : List (Infix × Int64)} {x : Int64}
variable {tail : List LocatedToken} {s s' : State} {t : LocatedToken} {e : Expr} {op : Infix}

/-! ### Single steps -/

theorem current_bind {β : Type} (f : Token → Parse β) (s : State) :
    (current >>= f) s = f s.current.1 s := rfl

theorem currentSpan_bind {β : Type} (f : Span → Parse β) (s : State) :
    (currentSpan >>= f) s = f s.current.2 s := rfl

theorem continuesLine_bind {β : Type} (f : Bool → Parse β) (s : State) :
    (continuesLine >>= f) s =
      f (match s.last with
        | some l => s.current.2.line == l.line
        | none => false) s := rfl

theorem accessRound_done {a l : Span} {u : Token}
    (hs : s.current = (u, a)) (hl : s.last = some l) (hdot : u ≠ .mark .dot)
    (hopening : a.line = l.line → u ≠ .mark .leftParen ∧ u ≠ .mark .leftBracket) :
    accessRound g e s = .ok (.done e) s := by
  unfold accessRound
  simp only [current_bind, hs]
  split
  · contradiction
  · have hline : (a.line == l.line) = false := by
      simpa using fun heq => absurd rfl (hopening heq).1
    simp only [continuesLine_bind, hs, hl, hline]
    rfl
  · have hline : (a.line == l.line) = false := by
      simpa using fun heq => absurd rfl (hopening heq).2
    simp only [continuesLine_bind, hs, hl, hline]
    rfl
  · rfl

/-- A number is read in front of a token that goes on with no access to it. -/
theorem unaryExpr_int {a : Span} {ts : List LocatedToken}
    (hs : s.rest = (.int x, a) :: t :: ts) (hdot : t.1 ≠ .mark .dot)
    (hopening : t.2.line = a.line → t.1 ≠ .mark .leftParen ∧ t.1 ≠ .mark .leftBracket) :
    unaryExpr g s = .ok (.int x a) s.advance := by
  have hcurrent := State.current_eq hs
  have hunary : unaryExpr g s = access g s := by
    unfold unaryExpr
    simp only [currentSpan_bind, current_bind, hcurrent]
  have hprimary : primary g s = .ok (.int x a) s.advance := by
    unfold primary
    simp only [currentSpan_bind, current_bind, hcurrent]
    rfl
  have hround : accessRound g (.int x a) s.advance = .ok (.done (.int x a)) s.advance := by
    rw [State.advance_eq hs]
    exact accessRound_done rfl rfl hdot hopening
  rw [hunary, access, ok_bind hprimary]
  exact ok_bind hround

theorem operatorLevel?_mark (op : Infix) :
    operatorLevel? (.mark op.mark) = some op.level := by
  rcases op with op | op | _
  · cases op <;> rfl
  · cases op <;> rfl
  · rfl

/-- An operator takes what is tighter to its right. -/
theorem operatorTail_mark (level : Nat)
    (hs : s.current.1 = .mark op.mark) :
    operatorTail g e level s = (do
      let right ← g.operators (level + 1)
      return Round.again (op.apply e right (← spanSince e.span))) s.advance := by
  unfold operatorTail
  simp only [current_bind, hs]
  rcases op with op | op | _
  · cases op <;> rfl
  · cases op <;> rfl
  · rfl

theorem State.Behind.continuesLine (f : Bool → Parse (Round Expr Expr))
    (hs : s.Behind line depth links tail) :
    (Grammar.continuesLine >>= f) s = f (s.current.2.line == line) s := by
  obtain ⟨l, hlast, rfl⟩ := hs.last
  rw [continuesLine_bind, hlast]

theorem operatorRound_again
    (hs : s.Behind line depth ((op, x) :: links) tail) (hleast : least ≤ op.level) :
    operatorRound g least e s = operatorTail g e op.level s := by
  obtain ⟨_, hchain, hrest⟩ := hs.rest
  cases hchain with
  | @cons _ _ a _ _ _ ha _ _ =>
      have hcurrent : s.current = (.mark op.mark, a) := State.current_eq hrest
      unfold operatorRound
      simp only [current_bind, hcurrent, operatorLevel?_mark]
      rw [if_neg (by omega), hs.continuesLine, hcurrent, ha, beq_self_eq_true]
      rfl

/-- What ends an expression, or binds less tightly than it should, is left alone. -/
theorem operatorRound_done
    (hs : s.Behind line depth links (t :: tail)) (ht : Quits line t)
    (hlinks : ∀ l ∈ links.head?, l.1.level < least) :
    operatorRound g least e s = .ok (.done e) s := by
  obtain ⟨_, hchain, hrest⟩ := hs.rest
  unfold operatorRound
  cases hchain with
  | nil =>
      have hcurrent : s.current = t := State.current_eq hrest
      rw [current_bind, hcurrent]
      cases hlevel : operatorLevel? t.1 with
      | none =>
          rfl
      | some level =>
          have hline : (t.2.line == line) = false := by
            simpa using fun heq => by simp [ht.operator heq] at hlevel
          dsimp only
          split
          · rfl
          · rw [hs.continuesLine, hcurrent, hline]
            rfl
  | @cons op _ a _ _ _ _ _ _ =>
      have hcurrent : s.current = (.mark op.mark, a) := State.current_eq hrest
      simp only [current_bind, hcurrent, operatorLevel?_mark]
      rw [if_pos (hlinks _ rfl)]
      rfl

theorem Chain.length_le {ts : List LocatedToken}
    (h : Chain line links ts) :
    links.length ≤ ts.length := by
  induction h with
  | nil =>
      exact Nat.le_refl _
  | cons _ _ _ ih =>
      simp only [List.length_cons]
      omega

/-! ### The loop -/

theorem State.Ahead.advance
    (hs : s.Ahead line depth x links (t :: tail)) :
    s.advance.Behind line depth links (t :: tail) := by
  obtain ⟨a, ts, ha, hchain, hrest⟩ := hs.rest
  have hroom := hs.room
  obtain ⟨u, us, hus⟩ : ∃ u us, ts ++ t :: tail = u :: us :=
    List.exists_cons_of_ne_nil (by simp)
  rw [hus] at hrest
  rw [hrest, List.length_cons] at hroom
  rw [State.advance_eq hrest]
  exact ⟨⟨ts, hchain, hus.symm⟩, ⟨a, rfl, ha⟩, Nat.le_of_succ_le hroom, hs.depth⟩

theorem State.Behind.advance
    (hs : s.Behind line depth ((op, x) :: links) tail) :
    s.advance.Ahead line depth x links tail := by
  obtain ⟨_, hchain, hrest⟩ := hs.rest
  have hroom := hs.room
  cases hchain with
  | @cons _ _ _ b _ ts _ hb hchain =>
      rw [hrest] at hroom
      rw [State.advance_eq hrest]
      exact ⟨⟨b, ts, hb, hchain, rfl⟩, Nat.le_of_succ_le hroom, hs.depth⟩

theorem State.Ahead.unaryExpr
    (hs : s.Ahead line depth x links (t :: tail)) (ht : Quits line t) :
    ∃ a, Grammar.unaryExpr g s = .ok (.int x a) s.advance := by
  obtain ⟨a, ts, ha, hchain, hrest⟩ := hs.rest
  refine ⟨a, ?_⟩
  cases hchain with
  | nil =>
      exact unaryExpr_int hrest ht.dot fun heq => ht.opening (heq.trans ha)
  | @cons op _ _ _ _ _ _ _ _ =>
      have hmark : op.mark ≠ .dot ∧ op.mark ≠ .leftParen ∧ op.mark ≠ .leftBracket := by
        rcases op with op | op | _
        · cases op <;> decide
        · cases op <;> decide
        · decide
      refine unaryExpr_int hrest ?_ fun _ => ⟨?_, ?_⟩
      · exact fun h => hmark.1 (Token.mark.inj h)
      · exact fun h => hmark.2.1 (Token.mark.inj h)
      · exact fun h => hmark.2.2 (Token.mark.inj h)

/-- What was read of a line is a tree of operators that bind at least as tightly as a level, and it
is known what is left. -/
structure Grouped (line depth least : Nat) (tail : List LocatedToken) (x : Int64)
    (done ahead : List (Infix × Int64)) (e : Expr) (s : State) (u : InfixTree) : Prop where
  shows : e.Shows u
  first : u.first = x
  links : u.links = done
  ordered : u.Ordered
  tight : u.Tight least
  behind : s.Behind line depth ahead tail

/-- Whether a link binds at least as tightly as a level. -/
def binds (least : Nat) (l : Infix × Int64) : Bool := decide (least ≤ l.1.level)

/-- A reader takes a number and the operators up to the first one that is looser than a level. -/
def Climbs (least : Nat) (p : Parse Expr) : Prop :=
  ∀ ⦃line depth x links t tail s⦄, s.Ahead line depth x links (t :: tail) → Quits line t →
    ∃ e s' u, p s = .ok e s' ∧
      Grouped line depth least (t :: tail) x (links.takeWhile (binds least))
        (links.dropWhile (binds least)) e s' u

/-- The operators that are tighter than one level come before the first that is looser than
another. -/
theorem takeWhile_binds_append {level : Nat}
    (h : least ≤ level) (links : List (Infix × Int64)) :
    links.takeWhile (binds level) ++ (links.dropWhile (binds level)).takeWhile (binds least) =
        links.takeWhile (binds least) ∧
      (links.dropWhile (binds level)).dropWhile (binds least) = links.dropWhile (binds least) := by
  induction links with
  | nil =>
      simp
  | cons l links ih =>
      by_cases hl : level ≤ l.1.level
      · have hl' : least ≤ l.1.level := Nat.le_trans h hl
        simpa [binds, hl, hl'] using ih
      · simp [binds, hl]

/-- The loop takes one operator after another, each with what is tighter to its right. -/
theorem repeat_operatorRound
    (hg : ∀ op : Infix, least ≤ op.level → Climbs (op.level + 1) (g.operators (op.level + 1)))
    (ht : Quits line t) {done ahead : List (Infix × Int64)} {u : InfixTree}
    (hs : Grouped line depth least (t :: tail) x done ahead e s u)
    (hnext : ∀ l ∈ ahead.head?, u.Tight l.1.level) (hn : ahead.length < n) :
    ∃ e' s' u', repeatBounded (operatorRound g least) n e s = .ok e' s' ∧
      Grouped line depth least (t :: tail) x (done ++ ahead.takeWhile (binds least))
        (ahead.dropWhile (binds least)) e' s' u' := by
  induction n generalizing done ahead e s u with
  | zero =>
      cases hn
  | succ n ih =>
      by_cases hdone : ∀ l ∈ ahead.head?, l.1.level < least
      · refine ⟨e, s, u, ok_bind (operatorRound_done hs.behind ht hdone), ?_⟩
        cases ahead with
        | nil =>
            simpa using hs
        | cons l ahead =>
            have hl : ¬ least ≤ l.1.level := Nat.not_le.mpr (hdone l rfl)
            simpa [binds, hl] using hs
      · cases ahead with
        | nil =>
            simp at hdone
        | cons l ahead =>
            obtain ⟨op, y⟩ := l
            have hleast : least ≤ op.level := by simpa using hdone
            obtain ⟨right, s₁, v, hright, hv⟩ := hg op hleast hs.behind.advance ht
            have hround : operatorRound g least e s = .ok (.again (op.apply e right
                (joinSpans e.span (s₁.last.getD s₁.current.2)))) s₁ := by
              have hcurrent : s.current.1 = .mark op.mark := by
                obtain ⟨_, hchain, hrest⟩ := hs.behind.rest
                cases hchain
                rw [State.current_eq hrest]
              rw [operatorRound_again hs.behind hleast, operatorTail_mark op.level hcurrent,
                ok_bind hright]
              rfl
            have hgrouped : Grouped line depth least (t :: tail) x
                (done ++ (op, y) :: ahead.takeWhile (binds (op.level + 1)))
                (ahead.dropWhile (binds (op.level + 1))) (op.apply e right
                  (joinSpans e.span (s₁.last.getD s₁.current.2))) s₁ (.node op u v) := by
              refine ⟨.node hs.shows hv.shows, hs.first, ?_, ?_, hleast, hv.behind⟩
              · rw [InfixTree.links, hs.links, hv.first, hv.links]
              · exact ⟨hnext _ rfl, hv.tight, hs.ordered, hv.ordered⟩
            have hlooser : ∀ l ∈ (ahead.dropWhile (binds (op.level + 1))).head?,
                (InfixTree.node op u v).Tight l.1.level := by
              intro l hl
              have hnot := List.head?_dropWhile_not (binds (op.level + 1)) ahead
              rw [hl] at hnot
              simp only [binds, decide_eq_false_iff_not] at hnot
              exact Nat.le_of_lt_succ (Nat.not_le.mp hnot)
            have hlength : (ahead.dropWhile (binds (op.level + 1))).length < n := by
              have := (List.dropWhile_suffix (l := ahead) (binds (op.level + 1))).length_le
              rw [List.length_cons] at hn
              omega
            obtain ⟨e', s', u', hloop, hu'⟩ := ih hgrouped hlooser hlength
            obtain ⟨htake, hdrop⟩ := takeWhile_binds_append (Nat.le_succ_of_le hleast) ahead
            have hl : binds least (op, y) = true := decide_eq_true hleast
            refine ⟨e', s', u', (ok_bind hround).trans hloop, ?_⟩
            rw [hdrop, List.append_assoc, List.cons_append, htake] at hu'
            rwa [List.takeWhile_cons_of_pos hl, List.dropWhile_cons_of_pos hl]

/-- Precedence climbing goes down one level with each reader, and no operator is tighter than the
last level. -/
theorem climbs_operatorsFrom
    (hleast : least ≤ 9) (hn : 10 ≤ n + least) :
    Climbs least (operatorsFrom (readers n) least) := by
  induction n generalizing least with
  | zero =>
      omega
  | succ n ih =>
      intro line depth x links t tail s hs ht
      obtain ⟨a, hunary⟩ : ∃ a, (readers (n + 1)).unary s = .ok (.int x a) s.advance :=
        hs.unaryExpr ht
      have hnumber : Grouped line depth least (t :: tail) x [] links (.int x a) s.advance
          (.number x) :=
        ⟨.number, rfl, rfl, trivial, trivial, hs.advance⟩
      have hlength : links.length < s.advance.size + 1 := by
        obtain ⟨ts, hchain, hrest⟩ := hs.advance.rest
        have hroom := hs.advance.room
        have hchain := hchain.length_le
        rw [hrest, List.length_append] at hroom
        omega
      have hnext (op : Infix) (hop : least ≤ op.level) :
          Climbs (op.level + 1) ((readers (n + 1)).operators (op.level + 1)) := by
        have hlevel := op.level_bounds.2
        exact ih (by omega) (by omega)
      obtain ⟨e, s', u, hloop, hu⟩ :=
        repeat_operatorRound hnext ht hnumber (fun _ _ => trivial) hlength
      exact ⟨e, s', u, (ok_bind hunary).trans hloop, hu⟩

end Reading

/-- Numbers that are joined by operators on a line are read to the end, and grouped in the only way
in which looser operators do not come below tighter ones, nor below equal ones on their right. -/
theorem expression_groups
    (n : Nat) {line depth : Nat} {x : Int64} {links : List (Infix × Int64)} {t : LocatedToken}
    {tail : List LocatedToken} {s : State} (hs : s.Ahead line depth x links (t :: tail))
    (ht : Quits line t) (hdepth : depth < maxDepth) :
    ∃ e s' u, (readers (n + 10)).expression s = .ok e s' ∧ s'.rest = t :: tail ∧
      s'.depth = depth ∧ e.Shows u ∧ (u.first = x ∧ u.links = links ∧ u.Ordered) ∧
      ∀ v : InfixTree, v.first = x ∧ v.links = links ∧ v.Ordered → v = u := by
  have hlimit : ¬ maxDepth < s.depth + 1 := by
    have := hs.depth
    omega
  have hdeeper : State.Ahead line (depth + 1) x links (t :: tail) { s with depth := s.depth + 1 } :=
    ⟨hs.rest, hs.room, congrArg (· + 1) hs.depth⟩
  have hclimbs : Climbs 1 (operatorsFrom (readers (n + 9)) 1) :=
    climbs_operatorsFrom (by omega) (by omega)
  obtain ⟨e, s', u, hread, hu⟩ := hclimbs hdeeper ht
  have hall : ∀ l ∈ links, binds 1 l = true := by
    intro l _
    exact decide_eq_true l.1.level_bounds.1
  rw [List.takeWhile_eq_self_iff.mpr hall, List.dropWhile_eq_nil_iff.mpr hall] at hu
  refine ⟨e, { s' with depth := s'.depth - 1 }, u, ?_, ?_, ?_, hu.shows,
    ⟨hu.first, hu.links, hu.ordered⟩, ?_⟩
  · show nested (operatorsFrom (readers (n + 9)) 1) s = _
    rw [nested_apply, if_neg hlimit, hread]
  · obtain ⟨_, hchain, hrest⟩ := hu.behind.rest
    cases hchain
    exact hrest
  · exact congrArg (· - 1) hu.behind.depth
  · rintro v ⟨hfirst, hlinks, hordered⟩
    exact InfixTree.eq_of_ordered hordered hu.ordered (hfirst.trans hu.first.symm)
      (hlinks.trans hu.links.symm)

/-- Of `1 - 2 - 3 * 4 == 5 || 6` the first minus belongs to the left of the second one, and the
product to its right. -/
theorem expression_groups_mixed :
    let tokens : List LocatedToken :=
      [.int 1, .mark .minus, .int 2, .mark .minus, .int 3, .mark .star, .int 4, .mark .equalEqual,
        .int 5, .mark .pipePipe, .int 6, .eof].map fun t => (t, ⟨0, 0, 1, 1⟩)
    let difference : InfixTree := .node (.binary .subtract) (.number 1) (.number 2)
    let product : InfixTree := .node (.binary .multiply) (.number 3) (.number 4)
    let equation : InfixTree :=
      .node (.binary .equal) (.node (.binary .subtract) difference product) (.number 5)
    ∃ e s', (readersFor tokens).expression (State.ofTokens tokens) = .ok e s' ∧
      s'.rest = [(.eof, ⟨0, 0, 1, 1⟩)] ∧
      e.Shows (.node (.logical .or) equation (.number 6)) := by
  intro tokens difference product equation
  have hchain : Chain 1 [(.binary .subtract, 2), (.binary .subtract, 3), (.binary .multiply, 4),
      (.binary .equal, 5), (.logical .or, 6)] tokens.tail.dropLast :=
    .cons rfl rfl <| .cons rfl rfl <| .cons rfl rfl <| .cons rfl rfl <| .cons rfl rfl .nil
  have hs : State.Ahead 1 0 1 _ [(.eof, ⟨0, 0, 1, 1⟩)] (State.ofTokens tokens) :=
    ⟨⟨⟨0, 0, 1, 1⟩, _, rfl, hchain, rfl⟩, Nat.le_refl _, rfl⟩
  have ht : Quits 1 (.eof, ⟨0, 0, 1, 1⟩) := ⟨nofun, fun _ => rfl, fun _ => ⟨nofun, nofun⟩⟩
  obtain ⟨e, s', u, hread, hrest, -, hshows, -, hunique⟩ :=
    expression_groups (4 * tokensWeight tokens + 6) hs ht (by decide)
  have htree := hunique (.node (.logical .or) equation (.number 6)) ⟨rfl, rfl, by
    simp [InfixTree.Ordered, InfixTree.Tight, Infix.level, equation, difference, product]⟩
  exact ⟨e, s', hread, hrest, htree ▸ hshows⟩

end Grammar
end ScriptEngine
