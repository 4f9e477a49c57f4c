import ScriptEngine.Proofs.Grammar.Places

/-!
# Reading two texts alongside

Two readers run alongside each other (`Alongside`) when alike states take them to results that are
alike, or to errors that are alike, and in both cases to states that are alike again.  The two may
be different readers, for they may have been given different bounds; so the judgement also says of
how much text it speaks, and keeps account of the tokens consumed.

Each operation of the reading monad, and each reader that looks at the state, has one rule here; the
pieces of the grammar are put together from these rules.
-/

namespace ScriptEngine

/-- An error is not that of a bound on rounds. -/
def ParseError.InBounds (e : ParseError) : Prop := e.cause ≠ .limit "too many rounds"

namespace Grammar

/-! ### Readers that change the state -/

theorem ok_bind
    {α β : Type} {p : Parse α} {f : α → Parse β} {s s' : State} {a : α} (h : p s = .ok a s') :
    (p >>= f) s = f a s' := by
  show EStateM.bind p f s = _
  unfold EStateM.bind
  rw [h]

theorem nested_apply
    {α : Type} (p : Parse α) (s : State) :
    nested p s =
      if maxDepth < s.depth + 1 then
        .error (.ofCause (.limit "nesting too deep") s.current.2)
          { s with depth := s.depth + 1, refused := s.refused + 1 }
      else match p { s with depth := s.depth + 1 } with
        | .ok a s' => .ok a { s' with depth := s'.depth - 1 }
        | .error e s' => .error e { s' with depth := s'.depth - 1 } := by
  show (ite (maxDepth < s.depth + 1) _ _ : Parse α) _ = _
  split
  · rfl
  · show EStateM.bind (EStateM.tryCatch (EStateM.bind p _) _) _ _ = _
    unfold EStateM.bind EStateM.tryCatch
    dsimp only
    cases p { s with depth := s.depth + 1 } with
    | ok a s' => rfl
    | error e s' => rfl

theorem tryRead_apply
    {α : Type} (p : Parse (Option α)) (s : State) :
    tryRead p s = match p s with
      | .ok (some a) s' => .ok (some a) s'
      | .ok none s' => .ok none { s' with rest := s.rest, last := s.last }
      | .error _ s' => .ok none { s' with rest := s.rest, last := s.last } := by
  show EStateM.bind (EStateM.tryCatch p fun _ => Pure.pure none) _ s = _
  unfold EStateM.bind EStateM.tryCatch
  cases p s with
  | ok a s' => cases a <;> rfl
  | error e s' => rfl

/-! ### Readers -/

/-- What a round says in two readings. -/
inductive Round.Alike {α β γ δ : Type} (R : α → β → Prop) (Q : γ → δ → Prop) :
    Round α γ → Round β δ → Prop
  | again {a : α} {b : β} (h : R a b) : Round.Alike R Q (.again a) (.again b)
  | done {c : γ} {d : δ} (h : Q c d) : Round.Alike R Q (.done c) (.done d)

section Lists

variable {α β : Type} {R : α → β → Prop} {xs : List α} {ys : List β} {a : α} {b : β}

theorem forall₂_concat
    (h : List.Forall₂ R xs ys) (hlast : R a b) :
    List.Forall₂ R (xs ++ [a]) (ys ++ [b]) :=
  List.rel_append h (.cons hlast .nil)

theorem forall₂_isEmpty
    (h : List.Forall₂ R xs ys) :
    xs.isEmpty = ys.isEmpty := by
  cases h <;> rfl

theorem forall₂_getLast?
    (h : List.Forall₂ R xs ys) :
    Option.Rel R xs.getLast? ys.getLast? := by
  rw [List.getLast?_eq_head?_reverse, List.getLast?_eq_head?_reverse]
  have hreverse := List.forall₂_reverse_iff.mpr h
  generalize xs.reverse = xs at hreverse
  generalize ys.reverse = ys at hreverse
  cases hreverse with
  | nil =>
      exact .none
  | cons hlast _ =>
      exact .some hlast

theorem forall₂_find?
    {p : α → Bool} {q : β → Bool} (h : List.Forall₂ R xs ys) (hpq : ∀ a b, R a b → p a = q b) :
    Option.Rel R (xs.find? p) (ys.find? q) := by
  induction h with
  | nil =>
      exact .none
  | @cons a b xs ys hab _ ih =>
      rw [List.find?_cons, List.find?_cons, hpq a b hab]
      cases q b with
      | true =>
          exact .some hab
      | false =>
          exact ih

end Lists


section Rules

variable {α β γ δ : Type} {R : α → β → Prop} {Q : γ → δ → Prop}

/-- No result owes a token. -/
abbrev noneOwes {α : Type} : α → Prop := fun _ => False

/-- Every result owes a token. -/
abbrev allOwe {α : Type} : α → Prop := fun _ => True

/-- A round that goes on. -/
def Round.GoesOn : Round α β → Prop
  | .again _ => True
  | .done _ => False

/-- What two readers give from two states: both a result or both an error, and not that of a bound.
Results that owe a token come with one consumed. -/
inductive Agree (d : α → Prop) (R : α → β → Prop) (s t : State) :
    EStateM.Result ParseError State α → EStateM.Result ParseError State β → Prop
  | ok {a : α} {b : β} {s' t' : State} (hresult : R a b) (hstates : Onward s t s' t')
      (hpaid : d a → s'.rest.length < s.rest.length) : Agree d R s t (.ok a s') (.ok b t')
  | error {e f : ParseError} {s' t' : State} (herror : e.Alike f) (hbound : e.InBounds)
      (hstates : Onward s t s' t') : Agree d R s t (.error e s') (.error f t')

theorem Agree.after
    {s t s' t' : State} {x : EStateM.Result ParseError State α}
    {y : EStateM.Result ParseError State β} (hstates : Onward s t s' t')
    (h : Agree noneOwes R s' t' x y) :
    Agree noneOwes R s t x y := by
  cases h with
  | ok hresult hstates' _ =>
      exact .ok hresult (hstates.trans hstates') False.elim
  | error herror hbound hstates' =>
      exact .error herror hbound (hstates.trans hstates')

/-- Two readers that cannot tell states apart which are alike and hold text of at most the given
weight.  They may rely on `c` only for states with another token in front than the end of the
text, and their results of the kind `d` come with a token consumed. -/
def Alongside (c : Prop) (k : Nat) (d : α → Prop) (R : α → β → Prop) (p : Parse α) (q : Parse β) :
    Prop :=
  ∀ ⦃s t : State⦄, s.Alike t → tokensWeight s.rest ≤ k → (c → s.current.1.isEof = false) →
    Agree d R s t (p s) (q t)

/-- Two readers that look at the state only. -/
def Looks (R : α → β → Prop) (p : Parse α) (q : Parse β) : Prop :=
  ∀ ⦃s t : State⦄, s.Alike t → ∃ a b, p s = .ok a s ∧ q t = .ok b t ∧ R a b

variable {c : Prop} {k : Nat} {d : γ → Prop}

namespace Alongside

variable {p : Parse α} {q : Parse β} {f : α → Parse γ} {f' : β → Parse δ} {e : α → Prop}

/-! ### Sequences -/

/-- A result that owes no token. -/
theorem result
    {a : α} {b : β} (h : R a b) (hd : ¬ e a) :
    Alongside c k e R (Pure.pure a) (Pure.pure b) := by
  intro s t hst _ _
  exact .ok h (.refl hst) fun ha => absurd ha hd

theorem pure
    {a : α} {b : β} (h : R a b) :
    Alongside c k noneOwes R (Pure.pure a) (Pure.pure b) :=
  result h id

theorem throw
    {x y : ParseError} (h : x.Alike y) (hbound : x.InBounds) :
    Alongside c k e R (MonadExcept.throw x : Parse α) (MonadExcept.throw y : Parse β) := by
  intro s t hst _ _
  exact .error h hbound (.refl hst)

/-- Nothing is read after an error. -/
theorem thrown
    {x y : ParseError} (h : x.Alike y) (hbound : x.InBounds) :
    Alongside c k d Q ((MonadExcept.throw x : Parse α) >>= f)
      ((MonadExcept.throw y : Parse β) >>= f') := by
  intro s t hst _ _
  exact .error h hbound (.refl hst)

theorem invalid
    (reason : String) {a b : Span} :
    Alongside c k d Q ((Grammar.failInvalid reason a : Parse α) >>= f)
      ((Grammar.failInvalid reason b : Parse β) >>= f') :=
  thrown (.ofCause (.invalid reason)) nofun

/-- The second part pays what the whole owes, unless the first part has paid it. -/
theorem sequence
    {k' : Nat} {r : α → γ → Prop} (hp : Alongside c k e R p q)
    (hf : ∀ a b, R a b → Alongside False k' (r a) Q (f a) (f' b))
    (hpaid : ∀ a x, d x → r a x ∨ e a)
    (hweight : ∀ a {s s' : State}, s.After s' → (e a → s'.rest.length < s.rest.length) →
      tokensWeight s.rest ≤ k → tokensWeight s'.rest ≤ k') :
    Alongside c k d Q (p >>= f) (q >>= f') := by
  intro s t hst hk hc
  have hfirst := hp hst hk hc
  show Agree d Q s t (EStateM.bind p f s) (EStateM.bind q f' t)
  unfold EStateM.bind
  generalize p s = x at hfirst
  generalize q t = y at hfirst
  cases hfirst with
  | error herror hbound hstates =>
      exact .error herror hbound hstates
  | @ok a b s' t' hresult hstates hfirst =>
      have hsecond := hf a b hresult hstates.alike (hweight a hstates.left hfirst hk) False.elim
      dsimp only
      generalize f a s' = x at hsecond
      generalize f' b t' = y at hsecond
      cases hsecond with
      | error herror hbound hstates' =>
          exact .error herror hbound (hstates.trans hstates')
      | ok hresult hstates' hsecond =>
          refine .ok hresult (hstates.trans hstates') fun howes => ?_
          have hle := hstates.left.rest.length_le
          have hle' := hstates'.left.rest.length_le
          obtain howes | hpaid := hpaid a _ howes
          · exact Nat.lt_of_lt_of_le (hsecond howes) hle
          · exact Nat.lt_of_le_of_lt hle' (hfirst hpaid)

theorem bind
    (hp : Alongside c k e R p q) (hf : ∀ a b, R a b → Alongside False k d Q (f a) (f' b)) :
    Alongside c k d Q (p >>= f) (q >>= f') :=
  hp.sequence hf (fun _ _ => .inl) fun _ _ _ hafter _ hk =>
    Nat.le_trans (tokensWeight_le_of_suffix hafter.rest) hk

/-- A first part that consumes a token pays for the whole. -/
theorem paid
    (hp : Alongside c k allOwe R p q)
    (hf : ∀ a b, R a b → Alongside False k noneOwes Q (f a) (f' b)) :
    Alongside c k d Q (p >>= f) (q >>= f') :=
  hp.sequence hf (fun _ _ _ => .inr trivial) fun _ _ _ hafter _ hk =>
    Nat.le_trans (tokensWeight_le_of_suffix hafter.rest) hk

/-- A first part that consumes a token pays for the whole, and leaves less text to the rest. -/
theorem pay
    (hp : Alongside c (k + 1) allOwe R p q)
    (hf : ∀ a b, R a b → Alongside False k noneOwes Q (f a) (f' b)) :
    Alongside c (k + 1) d Q (p >>= f) (q >>= f') :=
  hp.sequence hf (fun _ _ _ => .inr trivial) fun _ _ _ hafter hlt hk =>
    Nat.le_of_lt_succ (Nat.lt_of_lt_of_le (tokensWeight_lt_of_suffix hafter.rest (hlt trivial)) hk)

section Equal

variable {p q : Parse α} {f : α → Parse γ} {f' : α → Parse δ}

/-- A first part whose results are equal. -/
theorem same
    (hp : Alongside c k e Eq p q) (hf : ∀ a, Alongside False k d Q (f a) (f' a)) :
    Alongside c k d Q (p >>= f) (q >>= f') := by
  refine hp.bind fun a b h => ?_
  subst h
  exact hf a

theorem paidSame
    (hp : Alongside c k allOwe Eq p q) (hf : ∀ a, Alongside False k noneOwes Q (f a) (f' a)) :
    Alongside c k d Q (p >>= f) (q >>= f') := by
  refine hp.paid fun a b h => ?_
  subst h
  exact hf a

theorem paySame
    (hp : Alongside c (k + 1) allOwe Eq p q)
    (hf : ∀ a, Alongside False k noneOwes Q (f a) (f' a)) :
    Alongside c (k + 1) d Q (p >>= f) (q >>= f') := by
  refine hp.pay fun a b h => ?_
  subst h
  exact hf a

end Equal

/-- Less text, more known of it, less owed. -/
theorem weaken
    {c' : Prop} {k' : Nat} {e' : α → Prop} (hp : Alongside c k e R p q) (hk : k' ≤ k)
    (hc : c → c') (he : ∀ a, e' a → e a) :
    Alongside c' k' e' R p q := by
  intro s t hst hweight hfront
  have hinner := hp hst (Nat.le_trans hweight hk) (hfront ∘ hc)
  generalize p s = x at hinner
  generalize q t = y at hinner
  cases hinner with
  | ok hresult hstates hpaid =>
      exact .ok hresult hstates (hpaid ∘ he _)
  | error herror hbound hstates =>
      exact .error herror hbound hstates

theorem anywhere
    (hp : Alongside False k e R p q) :
    Alongside c k e R p q :=
  hp.weaken (Nat.le_refl k) False.elim fun _ => id

theorem down
    (hp : Alongside c (k + 1) e R p q) :
    Alongside c k e R p q :=
  hp.weaken (Nat.le_succ k) id fun _ => id

/-- A debt may be forgiven. -/
theorem forgive
    (hp : Alongside c k e R p q) :
    Alongside c k noneOwes R p q :=
  hp.weaken (Nat.le_refl k) id fun _ => False.elim

theorem map
    {f : α → γ} {f' : β → δ} (hp : Alongside c k e R p q) (hf : ∀ a b, R a b → Q (f a) (f' b)) :
    Alongside c k noneOwes Q (f <$> p) (f' <$> q) := by
  rw [map_eq_pure_bind, map_eq_pure_bind]
  exact hp.bind fun a b h => pure (hf a b h)

theorem some
    (hp : Alongside c k e R p q) :
    Alongside c k noneOwes (Option.Rel R) (Option.some <$> p) (Option.some <$> q) :=
  hp.map fun _ _ h => .some h

theorem someSame
    {p q : Parse α} (hp : Alongside c k e Eq p q) :
    Alongside c k noneOwes Eq (Option.some <$> p) (Option.some <$> q) :=
  hp.map fun _ _ h => congrArg Option.some h

/-! ### Choices -/

theorem either
    {x : Prop} [Decidable x] {p' : Parse α} {q' : Parse β} (hp : Alongside c k e R p q)
    (hp' : Alongside c k e R p' q') :
    Alongside c k e R (if x then p else p') (if x then q else q') := by
  split
  · exact hp
  · exact hp'

/-- A part that is read or replaced by a default. -/
theorem optional
    {x : Prop} [Decidable x] {a : α} {b : β} (hp : Alongside c k noneOwes R p q)
    (hdefault : R a b) (hf : ∀ a b, R a b → Alongside False k d Q (f a) (f' b)) :
    Alongside c k d Q (have j := f; if x then p >>= fun y => j y else Pure.pure a >>= fun y => j y)
      (have j := f'; if x then q >>= fun y => j y else Pure.pure b >>= fun y => j y) :=
  either (hp.bind hf) ((pure hdefault).bind hf)

/-- A part that is replaced by a default or read. -/
theorem otherwise
    {x : Prop} [Decidable x] {a : α} {b : β} (hp : Alongside c k noneOwes R p q)
    (hdefault : R a b) (hf : ∀ a b, R a b → Alongside False k d Q (f a) (f' b)) :
    Alongside c k d Q (have j := f; if x then Pure.pure a >>= fun y => j y else p >>= fun y => j y)
      (have j := f'; if x then Pure.pure b >>= fun y => j y else q >>= fun y => j y) :=
  either ((pure hdefault).bind hf) (hp.bind hf)

/-- An optional part whose results are equal. -/
theorem optionalSame
    {x : Prop} [Decidable x] {p q : Parse α} {a : α} {f : α → Parse γ} {f' : α → Parse δ}
    (hp : Alongside c k e Eq p q) (hf : ∀ a, Alongside False k d Q (f a) (f' a)) :
    Alongside c k d Q (have j := f; if x then p >>= fun y => j y else Pure.pure a >>= fun y => j y)
      (have j := f'; if x then q >>= fun y => j y else Pure.pure a >>= fun y => j y) :=
  either (hp.same hf) ((pure rfl).same hf)

end Alongside

/-! ### Looking at the state -/

namespace Looks

variable {p : Parse α} {q : Parse β}

/-- What is looked at stays in front. -/
theorem bind
    {f : α → Parse γ} {f' : β → Parse δ} (hp : Looks R p q)
    (hf : ∀ a b, R a b → Alongside c k d Q (f a) (f' b)) :
    Alongside c k d Q (p >>= f) (q >>= f') := by
  intro s t hst hk hc
  obtain ⟨a, b, hs, ht, hresult⟩ := hp hst
  rw [ok_bind hs, ok_bind ht]
  exact hf a b hresult hst hk hc

theorem same
    {p q : Parse α} {f : α → Parse γ} {f' : α → Parse δ} (hp : Looks Eq p q)
    (hf : ∀ a, Alongside c k d Q (f a) (f' a)) :
    Alongside c k d Q (p >>= f) (q >>= f') := by
  refine hp.bind fun a b h => ?_
  subst h
  exact hf a

/-- What is made of what was looked at. -/
theorem map
    {f : α → γ} {f' : β → δ} (hp : Looks R p q) (hf : ∀ a b, R a b → Q (f a) (f' b)) :
    Looks Q (do return f (← p)) (do return f' (← q)) := by
  intro s t hst
  obtain ⟨a, b, hs, ht, hresult⟩ := hp hst
  exact ⟨f a, f' b, ok_bind hs, ok_bind ht, hf a b hresult⟩

theorem alongside
    {e : α → Prop} (hp : Looks R p q) (he : ∀ a, ¬ e a) :
    Alongside c k e R p q := by
  intro s t hst _ _
  obtain ⟨a, b, hs, ht, hresult⟩ := hp hst
  rw [hs, ht]
  exact .ok hresult (.refl hst) fun ha => absurd ha (he a)

end Looks

namespace Alongside

variable {p : Parse α} {q : Parse β} {f : α → Parse γ} {f' : β → Parse δ} {e : α → Prop}

theorem get :
    Looks State.Alike (MonadState.get : Parse State) MonadState.get :=
  fun s t hst => ⟨s, t, rfl, rfl, hst⟩

theorem current :
    Looks Token.Alike Grammar.current Grammar.current :=
  get.map fun _ _ hst => hst.current

/-- The token in front, of which it is then known whether it can be consumed. -/
theorem front
    {f : Token → Parse γ} {f' : Token → Parse δ}
    (hf : ∀ t u, t.Alike u → tokenWeight t ≤ k →
      Alongside (t.isEof = false) k d Q (f t) (f' u)) :
    Alongside c k d Q (Grammar.current >>= f) (Grammar.current >>= f') := by
  intro s t hst hk _
  exact hf _ _ hst.current (Nat.le_trans hst.left.current_weight hk) hst hk id

theorem peek
    (n : Nat) :
    Looks Token.Alike (Grammar.peek n) (Grammar.peek n) := by
  refine get.map fun s t hst => ?_
  have hnth := hst.layout.nth n
  cases hs : s.rest[n]? <;> cases ht : t.rest[n]? <;> simpa [hs, ht] using hnth

/-- Whether the next token but one stands on the line of the token in front, which only the layout
decides. -/
theorem onward
    {f f' : Span → Token → Span → Parse γ} {Q : γ → γ → Prop}
    (hf : ∀ a t a' b u b',
      (!t.isEof && a'.line == a.line) = (!u.isEof && b'.line == b.line) →
        Alongside c k d Q (f a t a') (f' b u b')) :
    Alongside c k d Q
      (do f (← currentSpan) (← Grammar.peek 1) (← peekSpan 1))
      (do f' (← currentSpan) (← Grammar.peek 1) (← peekSpan 1)) := by
  intro s t hst hk hc
  refine hf _ _ _ _ _ _ ?_ hst hk hc
  obtain ⟨rest, last, depth, size, refused⟩ := s
  obtain ⟨rest', last', depth', size', refused'⟩ := t
  cases hst.layout with
  | nil =>
      rfl
  | single _ =>
      rfl
  | cons _ hline hrest =>
      refine congrArg₂ and (congrArg not hrest.head.isEof_eq) ?_
      rw [Bool.eq_iff_iff]
      simpa [State.current] using hline

/-- A span that is read, and may differ. -/
theorem place
    {f : Span → Parse γ} {f' : Span → Parse δ} (hf : ∀ a b, Alongside c k d Q (f a) (f' b)) :
    Alongside c k d Q (currentSpan >>= f) (currentSpan >>= f') :=
  (get.map (Q := fun _ _ => True) fun _ _ _ => trivial).bind fun a b _ => hf a b

/-- The span of a tree, which may differ. -/
theorem since
    {a b : Span} {f : Span → Parse γ} {f' : Span → Parse δ}
    (hf : ∀ a b, Alongside c k d Q (f a) (f' b)) :
    Alongside c k d Q (spanSince a >>= f) (spanSince b >>= f') := by
  have hlast : Looks (fun _ _ => True) lastSpan lastSpan := get.map fun _ _ _ => trivial
  exact (hlast.map (Q := fun _ _ => True) fun _ _ _ => trivial).bind fun a b _ => hf a b

theorem continuesLine :
    Looks Eq Grammar.continuesLine Grammar.continuesLine :=
  get.map fun _ _ hst => hst.joined

theorem atEof :
    Looks Eq Grammar.atEof Grammar.atEof :=
  current.map fun _ _ h => h.isEof_eq

theorem atMark
    (m : Mark) :
    Looks Eq (Grammar.atMark m) (Grammar.atMark m) :=
  current.map fun _ _ h => h.isMark_eq m

theorem atWord
    (w : Keyword) :
    Looks Eq (Grammar.atWord w) (Grammar.atWord w) :=
  current.map fun _ _ h => h.isKeyword_eq w

theorem atAnyWord
    (ws : List Keyword) :
    Looks Eq (Grammar.atAnyWord ws) (Grammar.atAnyWord ws) :=
  current.map fun _ _ h => congrArg ws.any (funext h.isKeyword_eq)

/-! ### Consuming what is expected -/

theorem advance :
    Alongside c k noneOwes Eq Grammar.advance Grammar.advance := by
  intro s t hst _ _
  exact .ok rfl hst.advance False.elim

/-- The token in front is consumed when it is known not to be the end of the text. -/
theorem consume
    (hc : c) :
    Alongside c k allOwe Eq Grammar.advance Grammar.advance := by
  intro s t hst _ hfront
  exact .ok rfl hst.advance fun _ => hst.left.advance_length (hfront hc)

section Steps

variable {x : Unit → Parse γ} {x' : Unit → Parse δ}

/-- A step over the token in front pays for what follows. -/
theorem step
    (hx : Alongside False k noneOwes Q (x ()) (x' ())) (hc : c) :
    Alongside c k d Q (Grammar.advance >>= x) (Grammar.advance >>= x') :=
  (consume hc).paidSame fun _ => hx

/-- A step over the token in front leaves less text. -/
theorem stepDown
    (hx : Alongside False k noneOwes Q (x ()) (x' ())) (hc : c) :
    Alongside c (k + 1) d Q (Grammar.advance >>= x) (Grammar.advance >>= x') :=
  (consume hc).paySame fun _ => hx

end Steps

section Tests

variable {test : Token → Bool} {x y : Parse γ} {x' y' : Parse δ}

/-- A part read where the token in front is of a kind, and another elsewhere. -/
theorem ifFront
    (htest : ∀ t u, t.Alike u → test t = test u) (hend : test .eof = false)
    (hx : Alongside True k d Q x x') (hy : Alongside c k d Q y y') :
    Alongside c k d Q (do if test (← Grammar.current) then x else y)
      (do if test (← Grammar.current) then x' else y') := by
  intro s t hst hk hc
  show Agree d Q s t ((if test s.current.1 then x else y) s)
    ((if test t.current.1 then x' else y') t)
  rw [← htest _ _ hst.current]
  split
  · next hfront =>
      refine hx hst hk fun _ => ?_
      generalize s.current.1 = u at hfront
      cases u with
      | eof =>
          rw [hend] at hfront
          cases hfront
      | _ =>
          rfl
  · exact hy hst hk hc

theorem ifMark
    {m : Mark} (hx : Alongside True k d Q x x') (hy : Alongside c k d Q y y') :
    Alongside c k d Q (do if ← Grammar.atMark m then x else y)
      (do if ← Grammar.atMark m then x' else y') :=
  ifFront (fun _ _ h => h.isMark_eq m) rfl hx hy

theorem ifWord
    {w : Keyword} (hx : Alongside True k d Q x x') (hy : Alongside c k d Q y y') :
    Alongside c k d Q (do if ← Grammar.atWord w then x else y)
      (do if ← Grammar.atWord w then x' else y') :=
  ifFront (fun _ _ h => h.isKeyword_eq w) rfl hx hy

end Tests

/-- Eating a mark consumes it where it is there. -/
theorem eatMark
    (m : Mark) :
    Alongside c k (· = true) Eq (Grammar.eatMark m) (Grammar.eatMark m) :=
  ifMark (step (pure rfl) trivial) (result rfl Bool.noConfusion)

theorem eatWord
    (w : Keyword) :
    Alongside c k (· = true) Eq (Grammar.eatWord w) (Grammar.eatWord w) :=
  ifWord (step (pure rfl) trivial) (result rfl Bool.noConfusion)

/-- What is owed is paid where something is eaten. -/
theorem ifEaten
    {ate : Parse Bool} {x y : Parse γ} {x' y' : Parse δ}
    (hate : Alongside c k (· = true) Eq ate ate) (hx : Alongside False k noneOwes Q x x')
    (hy : Alongside False k d Q y y') :
    Alongside c k d Q (do if ← ate then x else y) (do if ← ate then x' else y') := by
  refine hate.sequence (r := fun a => if a then noneOwes else d) (fun a b h => ?_)
    (fun a z hz => ?_) fun _ _ _ hafter _ hk =>
      Nat.le_trans (tokensWeight_le_of_suffix hafter.rest) hk
  · subst h
    cases a with
    | true =>
        exact hx
    | false =>
        exact hy
  · cases a with
    | true =>
        exact .inr rfl
    | false =>
        exact .inl hz

theorem unexpected
    (expected : List Expected) :
    Looks (fun x y => x.Alike y ∧ x.InBounds) (Grammar.unexpected expected)
      (Grammar.unexpected expected) := by
  refine get.map fun s t hst => ?_
  have hfront := hst.current
  generalize s.current.1 = x at hfront
  generalize t.current.1 = y at hfront
  cases hfront with
  | eof =>
      exact ⟨.ofCause (.unexpectedEof expected), nofun⟩
  | template hparts =>
      exact ⟨.ofCause (.unexpectedToken (.template hparts)), nofun⟩
  | _ =>
      exact ⟨.ofCause (.unexpectedToken (by constructor)), nofun⟩

theorem failExpecting
    (expected : List Expected) :
    Alongside c k e R (Grammar.failExpecting expected) (Grammar.failExpecting expected) :=
  (unexpected expected).bind fun _ _ h => throw h.1 h.2

theorem failInvalid
    (reason : String) {a b : Span} :
    Alongside c k e R (Grammar.failInvalid reason a) (Grammar.failInvalid reason b) :=
  throw (.ofCause (.invalid reason)) nofun

theorem expectMark
    (m : Mark) :
    Alongside c k allOwe Eq (Grammar.expectMark m) (Grammar.expectMark m) :=
  ifEaten (eatMark m) (pure rfl) (failExpecting _)

theorem expectWord
    (w : Keyword) :
    Alongside c k allOwe Eq (Grammar.expectWord w) (Grammar.expectWord w) :=
  ifEaten (eatWord w) (pure rfl) (failExpecting _)

theorem expectName :
    Alongside c k allOwe Eq Grammar.expectName Grammar.expectName := by
  refine front fun t u h _ => ?_
  cases h with
  | identifier name =>
      exact step (pure rfl) rfl
  | _ =>
      exact failExpecting _

theorem closeBlock
    (openedBy : String) {a b : Span} :
    Alongside c k noneOwes Eq (Grammar.closeBlock openedBy a) (Grammar.closeBlock openedBy b) := by
  refine (atWord _).same fun _ => either advance (atEof.same fun _ => either ?_ (failExpecting _))
  exact throw (.ofCause (.unclosedBlock openedBy)) nofun

/-! ### Going deeper, going back, going on -/

theorem nested
    (hp : Alongside c k e R p q) :
    Alongside c k e R (Grammar.nested p) (Grammar.nested q) := by
  intro s t hst hk hc
  have hlimit : maxDepth < s.depth + 1 ↔ maxDepth < t.depth + 1 := by rw [hst.depth]
  rw [nested_apply, nested_apply, if_congr hlimit rfl rfl]
  split
  · exact .error (.ofCause (.limit _)) (by simp [ParseError.InBounds, ParseError.ofCause])
      hst.refuse
  · have hinner := hp (hst.withDepth (· + 1) s.refused t.refused) hk hc
    generalize p _ = x at hinner
    generalize q _ = y at hinner
    cases hinner with
    | ok hresult hstates hpaid =>
        exact .ok hresult hstates.level hpaid
    | error herror hbound hstates =>
        exact .error herror hbound hstates.level

theorem tryRead
    {p : Parse (Option α)} {q : Parse (Option β)} {e : Option α → Prop}
    (hp : Alongside c k e (Option.Rel R) p q) :
    Alongside c k noneOwes (Option.Rel R) (Grammar.tryRead p) (Grammar.tryRead q) := by
  intro s t hst hk hc
  have hinner := hp hst hk hc
  rw [tryRead_apply, tryRead_apply]
  generalize p s = x at hinner
  generalize q t = y at hinner
  cases hinner with
  | ok hresult hstates _ =>
      cases hresult with
      | some h =>
          exact .ok (.some h) hstates False.elim
      | none =>
          exact .ok .none (hst.back hstates) False.elim
  | error herror _ hstates =>
      exact .ok .none (hst.back hstates) False.elim

/-- A repetition carries a relation from round to round.  It never runs out of rounds, because each
but the last consumes a token. -/
theorem repeatRead
    {round : α → Parse (Round α γ)} {round' : β → Parse (Round β δ)} {a : α} {b : β}
    (hround : ∀ a b, R a b →
      Alongside False k Round.GoesOn (Round.Alike R Q) (round a) (round' b)) (h : R a b) :
    Alongside c k noneOwes Q (Grammar.repeatRead round a) (Grammar.repeatRead round' b) := by
  have hbounded (n m : Nat) {a : α} {b : β} (h : R a b) {s t : State} (hst : s.Alike t)
      (hk : tokensWeight s.rest ≤ k) (hn : s.rest.length < n) (hm : t.rest.length < m) :
      Agree noneOwes Q s t (repeatBounded round n a s) (repeatBounded round' m b t) := by
    induction n generalizing m a b s t with
    | zero =>
        cases hn
    | succ n ih =>
        obtain _ | m := m
        · cases hm
        have hfirst := hround a b h hst hk False.elim
        show Agree noneOwes Q s t (EStateM.bind (round a) _ s) (EStateM.bind (round' b) _ t)
        unfold EStateM.bind
        generalize round a s = x at hfirst
        generalize round' b t = y at hfirst
        cases hfirst with
        | error herror hbound hstates =>
            exact .error herror hbound hstates
        | @ok x y s' t' hresult hstates hpaid =>
            cases hresult with
            | done hresult =>
                exact .ok hresult hstates False.elim
            | again hnext =>
                have hlt := hpaid trivial
                have hlt' : t'.rest.length < t.rest.length := by
                  rw [← hst.layout.length_eq, ← hstates.alike.layout.length_eq]
                  exact hlt
                have hrest := ih m hnext hstates.alike
                  (Nat.le_trans (tokensWeight_le_of_suffix hstates.left.rest) hk) (by omega)
                  (by omega)
                exact Agree.after hstates hrest
  intro s t hst hk _
  exact hbounded _ _ h hst hk (Nat.lt_succ_of_le hst.left.fits) (Nat.lt_succ_of_le hst.right.fits)

/-- A repetition that starts from nothing and adds to a list in each round. -/
theorem gather
    {round : List α → Parse (Round (List α) (List α))}
    {round' : List β → Parse (Round (List β) (List β))}
    (hround : ∀ xs ys, List.Forall₂ R xs ys →
      Alongside False k Round.GoesOn (Round.Alike (List.Forall₂ R) (List.Forall₂ R)) (round xs)
        (round' ys)) :
    Alongside c k noneOwes (List.Forall₂ R) (Grammar.repeatRead round [])
      (Grammar.repeatRead round' []) :=
  repeatRead hround .nil

/-- A repetition of equal values. -/
theorem repeatSame
    {round round' : α → Parse (Round α γ)} {a : α}
    (hround : ∀ a, Alongside False k Round.GoesOn (Round.Alike Eq Eq) (round a) (round' a)) :
    Alongside c k noneOwes Eq (Grammar.repeatRead round a) (Grammar.repeatRead round' a) := by
  refine repeatRead (fun a b h => ?_) rfl
  subst h
  exact hround a

/-- After a comma there is more to come. -/
theorem more
    {a : α} {b : β} (h : R a b) :
    Alongside c k noneOwes (Round.Alike R R)
      (do if ← Grammar.eatMark .comma then return .again a else return .done a)
      (do if ← Grammar.eatMark .comma then return .again b else return .done b) :=
  (eatMark _).same fun _ => either (pure (.again h)) (pure (.done h))

end Alongside

end Rules
end Grammar
end ScriptEngine
