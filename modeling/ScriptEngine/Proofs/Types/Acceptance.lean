import ScriptEngine.Proofs.Types.Readable

/-!
# Reading the tokens of a type

`spelling` writes a type in tokens, the way `text` writes it in characters.  A type that can be read
is read from its spelling, in front of any token that does not go on with it (`accepts_spelling`).

Readers are put together from rules: `Accepts` says which tokens a reader reads, in front of which
token, and what it gives.
-/

namespace ScriptEngine

namespace TypeExpr

mutual

/-- The tokens that a type is written with. -/
def spelling : TypeExpr → List Token
  | named n [] => [.identifier n]
  | named n (a :: as) =>
    .identifier n :: .mark .less :: spelling a ++ spellingTail .comma as ++ [.mark .greater]
  | union [] => []
  | union (m :: ms) => spelling m ++ spellingTail .pipe ms
  | wildcard => [.mark .question]
  | boundedAbove b => .mark .question :: .keyword .extendsKw :: spelling b
  | boundedBelow b => .mark .question :: .keyword .superKw :: spelling b

/-- The tokens of types, each after a separator. -/
def spellingTail (separator : Mark) : List TypeExpr → List Token
  | [] => []
  | a :: as => .mark separator :: spelling a ++ spellingTail separator as

end

end TypeExpr

namespace Grammar

/-- A state at a depth that has some tokens in front. -/
structure State.Shows (k : Nat) (ts : List Token) (s : State) : Prop where
  depth : s.depth = k
  size : s.rest.length ≤ s.size
  tokens : s.rest.map (·.1) = ts

/-- A reader reads some tokens in front of another one, and gives a result. -/
def Accepts {α : Type} (k : Nat) (p : Parse α) (ts : List Token) (next : Token) (a : α) : Prop :=
  ∀ s r, State.Shows k (ts ++ next :: r) s → ∃ s', p s = .ok a s' ∧ State.Shows k (next :: r) s'

namespace Accepts

variable {α β : Type} {k : Nat} {p : Parse α} {f : α → Parse β} {ts u : List Token}
variable {next : Token} {a : α} {b : β}

theorem pure :
    Accepts k (Pure.pure a) [] next a := by
  intro s r hs
  exact ⟨s, rfl, hs⟩

/-- What the first reader leaves begins with what the second one reads. -/
theorem bind
    (hp : Accepts k p ts (u.headD next) a) (hf : Accepts k (f a) u next b) :
    Accepts k (p >>= f) (ts ++ u) next b := by
  intro s r hs
  obtain ⟨r', hr'⟩ : ∃ r', u ++ next :: r = u.headD next :: r' := by
    cases u with
    | nil =>
        exact ⟨r, rfl⟩
    | cons v u =>
        exact ⟨u ++ next :: r, rfl⟩
  rw [List.append_assoc, hr'] at hs
  obtain ⟨s₁, hfirst, hs₁⟩ := hp s r' hs
  rw [← hr'] at hs₁
  obtain ⟨s₂, hsecond, hs₂⟩ := hf s₁ r hs₁
  exact ⟨s₂, (ok_bind hfirst).trans hsecond, hs₂⟩

/-- A first reader that reads nothing. -/
theorem look
    (hp : Accepts k p [] (u.headD next) a) (hf : Accepts k (f a) u next b) :
    Accepts k (p >>= f) u next b :=
  hp.bind hf

/-- A second reader that reads nothing. -/
theorem last
    (hp : Accepts k p ts next a) (hf : Accepts k (f a) [] next b) :
    Accepts k (p >>= f) ts next b := by
  have h := Accepts.bind (u := []) hp hf
  rwa [List.append_nil] at h

theorem current :
    Accepts k Grammar.current [] next next := by
  intro s r hs
  obtain ⟨t, ts, hrest, rfl, -⟩ := List.map_eq_cons_iff.mp hs.tokens
  refine ⟨s, ?_, hs⟩
  show EStateM.Result.ok s.current.1 s = _
  rw [State.current_eq hrest]

theorem advance
    {t : Token} :
    Accepts k Grammar.advance [t] next () := by
  intro s r hs
  obtain ⟨u, us, hrest, -, htail⟩ := List.map_eq_cons_iff.mp hs.tokens
  obtain ⟨v, vs, rfl, -, -⟩ := List.map_eq_cons_iff.mp htail
  refine ⟨s.advance, rfl, ?_⟩
  rw [State.advance_eq hrest]
  have hsize := hs.size
  rw [hrest] at hsize
  exact ⟨hs.depth, Nat.le_of_succ_le hsize, htail⟩

theorem atMark
    {m : Mark} :
    Accepts k (Grammar.atMark m) [] next (next.isMark m) :=
  current.bind (u := []) pure

theorem eatMark
    {m : Mark} :
    Accepts k (Grammar.eatMark m) [.mark m] next true := by
  have hfound : (Token.mark m).isMark m = true := beq_self_eq_true m
  refine bind (u := [.mark m]) atMark ?_
  simp only [List.headD_cons, hfound, if_true]
  exact advance.bind (u := []) pure

theorem passMark
    {m : Mark} (hnext : next.isMark m = false) :
    Accepts k (Grammar.eatMark m) [] next false := by
  refine bind (u := []) atMark ?_
  simp only [List.headD_nil, hnext, Bool.false_eq_true, if_false]
  exact pure

theorem eatWord
    {w : Keyword} :
    Accepts k (Grammar.eatWord w) [.keyword w] next true := by
  have hfound : (Token.keyword w).isKeyword w = true := beq_self_eq_true w
  have hlook : Accepts k (atWord w) [] (.keyword w) ((Token.keyword w).isKeyword w) :=
    current.bind (u := []) pure
  refine bind (u := [.keyword w]) hlook ?_
  simp only [hfound, if_true]
  exact advance.bind (u := []) pure

theorem passWord
    {w : Keyword} (hnext : next.isKeyword w = false) :
    Accepts k (Grammar.eatWord w) [] next false := by
  have hlook : Accepts k (atWord w) [] next (next.isKeyword w) := current.bind (u := []) pure
  refine bind (u := []) hlook ?_
  simp only [hnext, Bool.false_eq_true, if_false]
  exact pure

theorem expectMark
    {m : Mark} :
    Accepts k (Grammar.expectMark m) [.mark m] next () :=
  eatMark.bind (u := []) pure

theorem nested
    (hk : k < maxDepth) (hp : Accepts (k + 1) p ts next a) :
    Accepts k (Grammar.nested p) ts next a := by
  intro s r hs
  have hlimit : ¬ maxDepth < s.depth + 1 := by
    rw [hs.depth]
    omega
  have hdeeper : State.Shows (k + 1) (ts ++ next :: r) { s with depth := s.depth + 1 } :=
    ⟨congrArg (· + 1) hs.depth, hs.size, hs.tokens⟩
  obtain ⟨s', hrun, hs'⟩ := hp _ r hdeeper
  refine ⟨{ s' with depth := s'.depth - 1 }, ?_, ?_⟩
  · rw [nested_apply, if_neg hlimit, hrun]
  · exact ⟨congrArg (· - 1) hs'.depth, hs'.size, hs'.tokens⟩

variable {round : α → Parse (Round α β)} {c : α} {n : Nat}

theorem again
    (hround : Accepts k (round a) ts (u.headD next) (.again c))
    (hrest : Accepts k (repeatBounded round n c) u next b) :
    Accepts k (repeatBounded round (n + 1) a) (ts ++ u) next b :=
  hround.bind hrest

theorem done
    (hround : Accepts k (round a) ts next (.done b)) :
    Accepts k (repeatBounded round (n + 1) a) ts next b :=
  hround.last pure

/-- A repetition has more rounds to spare than there are tokens. -/
theorem repeatRead
    (hrounds : ∀ n, ts.length < n → Accepts k (repeatBounded round n a) ts next b) :
    Accepts k (Grammar.repeatRead round a) ts next b := by
  intro s r hs
  have hlength := congrArg List.length hs.tokens
  have hsize := hs.size
  rw [List.length_map, List.length_append, List.length_cons] at hlength
  exact hrounds (s.size + 1) (by omega) s r hs

end Accepts

/-! ### Types -/

section Types

open TypeExpr

variable {g : Reader} {k n : Nat} {next : Token}

/-- A token that ends a type. -/
def Ends (next : Token) : Prop :=
  next = .eof ∨ next = .mark .comma ∨ next = .mark .greater

theorem Ends.pipe
    (hnext : Ends next) :
    next.isMark .pipe = false := by
  rcases hnext with rfl | rfl | rfl <;> rfl

/-- A token that ends a member of a union; behind a bounded one it must end the union too. -/
def EndsMember (m : TypeExpr) (next : Token) : Prop :=
  Ends next ∨ m.isBounded = false ∧ next = .mark .pipe

theorem EndsMember.less
    {m : TypeExpr} (hnext : EndsMember m next) :
    next.isMark .less = false := by
  rcases hnext with (rfl | rfl | rfl) | ⟨-, rfl⟩ <;> rfl

theorem EndsMember.word
    {m : TypeExpr} (hnext : EndsMember m next) (w : Keyword) :
    next.isKeyword w = false := by
  rcases hnext with (rfl | rfl | rfl) | ⟨-, rfl⟩ <;> rfl

theorem EndsMember.ends
    {m : TypeExpr} (hnext : EndsMember m next) (hm : m.isBounded = true) :
    Ends next := by
  refine hnext.resolve_right fun ⟨hfree, _⟩ => ?_
  rw [hm] at hfree
  cases hfree

/-- What can be read does not begin with the end of a list of arguments. -/
theorem exists_spelling_eq_cons
    {d : Nat} {role : Role} {t : TypeExpr} (ht : Readable d role t) :
    ∃ v r, spelling t = v :: r ∧ v.isMark .greater = false := by
  induction ht with
  | @named d n args _ _ _ =>
      cases args with
      | nil | cons =>
          exact ⟨_, _, rfl, rfl⟩
  | wildcard | boundedAbove _ _ | boundedBelow _ _ =>
      exact ⟨_, _, rfl, rfl⟩
  | single _ ih =>
      exact ih
  | @union d ms hseveral _ _ ih =>
      cases ms with
      | nil =>
          cases hseveral
      | cons m ms =>
          obtain ⟨v, r, hv, hgreater⟩ := ih m List.mem_cons_self
          exact ⟨v, r ++ spellingTail .pipe ms, by rw [spelling, hv, List.cons_append], hgreater⟩

theorem length_spelling_lt
    (separator : Mark) {b : TypeExpr} {as : List TypeExpr} (hb : b ∈ as) :
    (spelling b).length < (spellingTail separator as).length := by
  induction as with
  | nil =>
      cases hb
  | cons a as ih =>
      rw [spellingTail, List.length_append, List.length_cons]
      rcases List.mem_cons.mp hb with rfl | hb
      · omega
      · have := ih hb
        omega

/-- A round that reads another type argument, or ends the list. -/
def argRound (g : Reader) (args : List TypeExpr) :
    Parse (Round (List TypeExpr) (List TypeExpr)) := do
  let args := args ++ [← g.type]
  if ← eatMark .comma then return .again args else return .done args

/-- A reader reads a type from its spelling. -/
def ReadsBack (k : Nat) (p : Parse TypeExpr) (t : TypeExpr) : Prop :=
  ∀ next, Ends next → Accepts k p (spelling t) next t

theorem accepts_args
    {a : TypeExpr} {as acc : List TypeExpr} (hread : ∀ b ∈ a :: as, ReadsBack k g.type b)
    (hn : (spelling a ++ spellingTail .comma as).length < n) :
    Accepts k (repeatBounded (argRound g) n acc) (spelling a ++ spellingTail .comma as)
      (.mark .greater) (acc ++ a :: as) := by
  have hfirst := hread a List.mem_cons_self
  induction as generalizing a acc n with
  | nil =>
      obtain ⟨n, rfl⟩ : ∃ n', n = n' + 1 := ⟨n - 1, by omega⟩
      refine .done ((hfirst _ (.inr (.inr rfl))).bind (u := []) ?_)
      exact (Accepts.passMark rfl).bind (u := []) .pure
  | cons b bs ih =>
      obtain ⟨n, rfl⟩ : ∃ n', n = n' + 1 := ⟨n - 1, by omega⟩
      have hsplit : spelling a ++ spellingTail .comma (b :: bs) =
          (spelling a ++ [.mark .comma]) ++ (spelling b ++ spellingTail .comma bs) := by
        simp [spellingTail]
      have hrest (c : TypeExpr) (hc : c ∈ b :: bs) := hread c (List.mem_cons_of_mem _ hc)
      rw [hsplit] at hn ⊢
      refine .again (c := acc ++ [a]) ?_ ?_
      · refine (hfirst _ (.inr (.inl rfl))).bind (u := [.mark .comma]) ?_
        exact Accepts.eatMark.bind (u := []) .pure
      · have hacc : acc ++ a :: b :: bs = (acc ++ [a]) ++ b :: bs := by simp
        rw [hacc]
        refine ih hrest ?_ (hrest b List.mem_cons_self)
        simp only [List.length_append, List.length_cons] at hn ⊢
        omega

theorem accepts_typeArgs
    {d : Nat} {a : TypeExpr} {as : List TypeExpr} (ha : Readable d .whole a)
    (hread : ∀ b ∈ a :: as, ReadsBack k g.type b) :
    Accepts k (typeArgs g)
      (.mark .less :: spelling a ++ spellingTail .comma as ++ [.mark .greater]) next (a :: as) := by
  obtain ⟨v, r, hv, hgreater⟩ := exists_spelling_eq_cons ha
  have hargs : Accepts k (repeatRead (argRound g) [])
      (spelling a ++ spellingTail .comma as) (.mark .greater) (a :: as) :=
    .repeatRead fun n hn => accepts_args hread hn
  have hclose : Accepts k (expectMark .greater >>= fun _ => return a :: as) [.mark .greater] next
      (a :: as) :=
    Accepts.expectMark.bind (u := []) .pure
  have hlook : Accepts k (atMark .greater) []
      ((spelling a ++ spellingTail .comma as ++ [Token.mark .greater]).headD next) false := by
    rw [hv, ← hgreater]
    exact .atMark
  exact Accepts.expectMark.bind (.look hlook (hargs.bind hclose))

/-- A reader reads a member of a union from its spelling. -/
def ReadsMember (k : Nat) (p : Parse TypeExpr) (m : TypeExpr) : Prop :=
  ∀ next, EndsMember m next → Accepts k p (spelling m) next m

theorem accepts_members
    {ms acc : List TypeExpr} (hread : ∀ m ∈ ms, ReadsMember k (typeAtom g) m)
    (hbounded : ms.IsChain fun m _ => m.isBounded = false) (hnext : Ends next)
    (hn : (spellingTail .pipe ms).length < n) :
    Accepts k (repeatBounded (memberRound g) n acc) (spellingTail .pipe ms) next
      (.union (acc ++ ms)) := by
  induction ms generalizing acc n with
  | nil =>
      obtain ⟨n, rfl⟩ : ∃ n', n = n' + 1 := ⟨n - 1, by omega⟩
      rw [List.append_nil]
      exact .done (.look (u := []) (.passMark hnext.pipe) .pure)
  | cons m ms ih =>
      obtain ⟨n, rfl⟩ : ∃ n', n = n' + 1 := ⟨n - 1, by omega⟩
      have hacc : acc ++ m :: ms = (acc ++ [m]) ++ ms := by simp
      have hmember :
          Accepts k (typeAtom g) (spelling m) ((spellingTail .pipe ms).headD next) m := by
        cases ms with
        | nil =>
            exact hread m List.mem_cons_self _ (.inl hnext)
        | cons m' ms =>
            obtain ⟨hlast, -⟩ := List.isChain_cons_cons.mp hbounded
            exact hread m List.mem_cons_self _ (.inr ⟨hlast, rfl⟩)
      rw [hacc]
      refine .again (c := acc ++ [m]) ?_ (ih ?_ ?_ ?_)
      · exact Accepts.eatMark.bind (u := spelling m) (hmember.last .pure)
      · exact fun c hc => hread c (List.mem_cons_of_mem _ hc)
      · exact hbounded.tail
      · simp only [spellingTail, List.length_append, List.length_cons] at hn
        omega

/-- A reader in a role reads a type from its spelling. -/
def ReadsAs (k : Nat) (g : Reader) : Role → TypeExpr → Prop
  | .whole => ReadsBack k (typeExpr g)
  | .member => ReadsMember k (typeAtom g)

/-- A type that can be read is read from its spelling, if the readers may call each other often
enough. -/
theorem accepts_spelling
    {d : Nat} {role : Role} {t : TypeExpr} (ht : Readable d role t) (hk : k + d ≤ maxDepth)
    (hn : (spelling t).length ≤ n) :
    ReadsAs k (readers n) role t := by
  induction ht generalizing k n with
  | @named d nm args hname hargs ih =>
      intro next hnext
      refine .nested (by omega) ?_
      cases args with
      | nil =>
          have hlook : Accepts (k + 1) (atMark .less) [] next false := hnext.less ▸ .atMark
          refine .look (u := [.identifier nm]) .current ?_
          exact Accepts.advance.last (.look hlook (.look .pure .pure))
      | cons a as =>
          obtain ⟨n, rfl⟩ : ∃ n', n = n' + 1 := ⟨n - 1, by simp [spelling] at hn; omega⟩
          have hread (b : TypeExpr) (hb : b ∈ a :: as) :
              ReadsBack (k + 1) (readers (n + 1)).type b := by
            have hle : (spelling b).length ≤ n := by
              have htail := length_spelling_lt .comma hb
              simp only [spelling, spellingTail, List.length_append, List.length_cons] at hn htail
              omega
            exact ih b hb (by omega) hle
          have hlist : Accepts (k + 1) (typeArgs (readers (n + 1))) _ next (a :: as) :=
            accepts_typeArgs (hargs a List.mem_cons_self) hread
          refine .look (u := spelling (.named nm (a :: as))) .current ?_
          refine Accepts.bind (u := .mark .less :: spelling a ++ spellingTail .comma as ++
            [.mark .greater]) .advance ?_
          exact .look .atMark (hlist.last .pure)
  | wildcard =>
      intro next hnext
      refine .nested (by omega) ?_
      refine .look (u := [.mark .question]) .current ?_
      exact Accepts.advance.last (.look (.passWord (hnext.word _)) (.look (.passWord (hnext.word _))
        .pure))
  | @boundedAbove d b hbound ih =>
      intro next hnext
      obtain ⟨n, rfl⟩ : ∃ n', n = n' + 1 := ⟨n - 1, by simp [spelling] at hn; omega⟩
      have hread : ReadsBack (k + 1) (readers (n + 1)).type b :=
        ih (by omega) (by simp [spelling] at hn; omega)
      refine .nested (by omega) ?_
      refine .look (u := spelling (.boundedAbove b)) .current ?_
      refine Accepts.bind (u := .keyword .extendsKw :: spelling b) .advance ?_
      exact Accepts.eatWord.bind ((hread next (hnext.ends rfl)).last .pure)
  | @boundedBelow d b hbound ih =>
      intro next hnext
      obtain ⟨n, rfl⟩ : ∃ n', n = n' + 1 := ⟨n - 1, by simp [spelling] at hn; omega⟩
      have hread : ReadsBack (k + 1) (readers (n + 1)).type b :=
        ih (by omega) (by simp [spelling] at hn; omega)
      refine .nested (by omega) ?_
      refine .look (u := spelling (.boundedBelow b)) .current ?_
      refine Accepts.bind (u := .keyword .superKw :: spelling b) .advance ?_
      refine .look (.passWord rfl) ?_
      exact Accepts.eatWord.bind ((hread next (hnext.ends rfl)).last .pure)
  | single hmember ih =>
      intro next hnext
      have hlook : Accepts k (atMark .pipe) [] next false := hnext.pipe ▸ .atMark
      exact (ih hk hn next (.inl hnext)).last (.look hlook .pure)
  | @union d ms hseveral hmembers hbounded ih =>
      intro next hnext
      obtain ⟨m, m', ms, rfl⟩ : ∃ m m' ms', ms = m :: m' :: ms' := by
        match ms, hseveral with
        | m :: m' :: ms, _ => exact ⟨m, m', ms, rfl⟩
      have hread (c : TypeExpr) (hc : c ∈ m :: m' :: ms) :
          ReadsMember k (typeAtom (readers n)) c := by
        have hle : (spelling c).length ≤ n := by
          have htail := length_spelling_lt .pipe hc
          simp only [spelling, spellingTail, List.length_append, List.length_cons] at hn htail
          omega
        exact ih c hc hk hle
      have hlast := (List.isChain_cons_cons.mp hbounded).1
      have hmembers : Accepts k (repeatRead (memberRound (readers n)) [m])
          (spellingTail .pipe (m' :: ms)) next (.union (m :: m' :: ms)) :=
        .repeatRead fun _ hlt => accepts_members (fun c hc => hread c (List.mem_cons_of_mem _ hc))
          hbounded.tail hnext hlt
      refine Accepts.bind (hread m List.mem_cons_self _ (.inr ⟨hlast, rfl⟩)) ?_
      exact .look .atMark hmembers

end Types

end Grammar
end ScriptEngine
