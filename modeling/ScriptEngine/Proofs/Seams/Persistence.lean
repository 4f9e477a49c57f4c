import ScriptEngine.Proofs.Seams.Texts

/-!
# Readers that persist

Readers are put together from smaller ones, and what they are put together from persists: sequences,
choices, tokens that are asked for, levels and repetitions.
-/

namespace ScriptEngine
namespace Grammar

/-! ### Sequences -/

/-- A sequence that succeeds does so in both parts. -/
theorem ok_of_bind
    {α β : Type} {p : Parse α} {f : α → Parse β} {s s' : State} {b : β}
    (h : (p >>= f) s = .ok b s') :
    ∃ a s₁, p s = .ok a s₁ ∧ f a s₁ = .ok b s' := by
  change EStateM.bind p f s = .ok b s' at h
  unfold EStateM.bind at h
  cases hp : p s with
  | ok a s₁ =>
      rw [hp] at h
      exact ⟨a, s₁, rfl, h⟩
  | error e s₁ =>
      rw [hp] at h
      cases h

/-- A sequence fails with its first part. -/
theorem error_bind
    {α β : Type} {p : Parse α} {f : α → Parse β} {s s' : State} {e : ParseError}
    (h : p s = .error e s') :
    (p >>= f) s = .error e s' := by
  show EStateM.bind p f s = _
  unfold EStateM.bind
  rw [h]

section Rules

variable {α β : Type} {F : Token → Prop} {k : Nat} {b b' : Prop} {l l₁ l₂ : Load} {i m n : Nat}

namespace Persists

variable {p : Parse α} {f : α → Parse β}

theorem pure
    (a : α) :
    Persists F k b .nothing i i (Pure.pure a) where
  spends _ hs _ _ _ h := by
    cases h
    exact .refl hs
  follows _ _ _ t hst _ _ _ _ h _ _ := by
    cases h
    exact ⟨t, rfl, hst⟩

/-- A reader that never succeeds. -/
theorem fails
    (h : ∀ s a s', p s ≠ .ok a s') :
    Persists F k b l i m p where
  spends _ _ _ _ _ hok := absurd hok (h _ _ _)
  follows _ _ _ _ _ _ _ _ _ hok _ _ := absurd hok (h _ _ _)

theorem throw
    (e : ParseError) :
    Persists F k b l i m (MonadExcept.throw e : Parse α) := by
  refine fails fun _ _ _ h => ?_
  cases h

theorem failExpecting
    (expected : List Expected) :
    Persists F k b l i m (Grammar.failExpecting expected : Parse α) := by
  refine fails fun _ _ _ h => ?_
  cases h

theorem invalid
    (reason : String) (a : Span) :
    Persists F k b l i m ((Grammar.failInvalid reason a : Parse α) >>= f) := by
  refine fails fun _ _ _ h => ?_
  cases h

theorem failInvalid
    (reason : String) (a : Span) :
    Persists F k b l i m (Grammar.failInvalid reason a : Parse α) := by
  refine fails fun _ _ _ h => ?_
  cases h

theorem sequence
    {k' : Nat} (hp : Persists F k b' l₁ i n p) (hf : ∀ a, Persists anything k' b l₂ n m (f a))
    (hb : b → b' ∨ l₂.moves = true) (hk : k ≤ k' ∨ l₁.moves = true ∧ k ≤ k' + 1)
    (hl : l = l₁ ∨ l = l₂) :
    Persists F k b l i m (p >>= f) where
  spends _ hs hF _ _ h := by
    obtain ⟨a, s₁, hp₁, hf₁⟩ := ok_of_bind h
    have hfirst := hp.spends hs hF hp₁
    exact hfirst.trans ((hf a).spends hfirst.ends trivial hf₁) hb hk hl
  follows _ hj _ _ hst hF hweight _ _ h hrefused hend := by
    obtain ⟨a, s₁, hp₁, hf₁⟩ := ok_of_bind h
    have hfirst := hp.spends (hst.ends hj) hF hp₁
    have hsecond := (hf a).spends hfirst.ends trivial hf₁
    have hwithin := hst.within hweight
    have hle := (hfirst.grows hwithin).refused
    have hle' := (hsecond.grows (hfirst.within hwithin hk)).refused
    obtain ⟨t₁, ht₁, hst₁⟩ := hp.follows hj hst hF hweight hp₁ (by omega) fun hend₁ => by
      obtain ⟨hend', hmoves⟩ := hsecond.at_end hfirst.ends hend₁
      refine (hb (hend hend')).resolve_right fun h => ?_
      rw [hmoves] at h
      cases h
    obtain ⟨t', ht', hst'⟩ := (hf a).follows hj hst₁ trivial (hfirst.within hwithin hk).weight hf₁
      (by omega) hend
    exact ⟨t', by rw [ok_bind ht₁, ht'], hst'⟩

/-- The second part consumes what the whole should. -/
theorem bind
    (hp : Persists F k b l₁ i n p) (hf : ∀ a, Persists anything k b l n m (f a)) :
    Persists F k b l i m (p >>= f) :=
  hp.sequence hf .inl (.inl (Nat.le_refl k)) (.inr rfl)

/-- The first part does not come to the end of the text, because the second one consumes more. -/
theorem inside
    (hp : Persists F k False l₁ i n p) (hf : ∀ a, Persists anything k b l n m (f a))
    (hl : l.moves = true) :
    Persists F k b l i m (p >>= f) :=
  hp.sequence hf (fun _ => .inr hl) (.inl (Nat.le_refl k)) (.inr rfl)

/-- The first part consumes what the whole should. -/
theorem paid
    (hp : Persists F k b l i n p) (hf : ∀ a, Persists anything k b .nothing n m (f a)) :
    Persists F k b l i m (p >>= f) :=
  hp.sequence hf .inl (.inl (Nat.le_refl k)) (.inl rfl)

/-- The first part consumes something and leaves less text to the second. -/
theorem payUpTo
    {k' : Nat} (hp : Persists F k' b l i n p) (hf : ∀ a, Persists anything k b .nothing n m (f a))
    (hl : l.moves = true) (hk : k' ≤ k + 1) :
    Persists F k' b l i m (p >>= f) :=
  hp.sequence hf .inl (.inr ⟨hl, hk⟩) (.inl rfl)

theorem pay
    (hp : Persists F (k + 1) b l i n p) (hf : ∀ a, Persists anything k b .nothing n m (f a))
    (hl : l.moves = true) :
    Persists F (k + 1) b l i m (p >>= f) :=
  hp.payUpTo hf hl (Nat.le_refl _)

/-- Both parts consume something, and the first one leaves less text to the second. -/
theorem payInside
    (hp : Persists F (k + 1) False l₁ i n p) (hf : ∀ a, Persists anything k b l n m (f a))
    (hl₁ : l₁.moves = true) (hl : l.moves = true) :
    Persists F (k + 1) b l i m (p >>= f) :=
  hp.sequence hf (fun _ => .inr hl) (.inr ⟨hl₁, Nat.le_refl _⟩) (.inr rfl)

theorem weaken
    {F' : Token → Prop} {k' : Nat} (hp : Persists F k b l i m p) (hF : ∀ t, F' t → F t)
    (hk : k' ≤ k) (hb : b' → b)
    (hl : l₁ = l ∨ l₁ = .nothing ∨ l₁ = .something ∧ l.moves = true) :
    Persists F' k' b' l₁ i m p where
  spends _ hs hF' _ _ h := (hp.spends hs (hF _ hF') h).weaken hk hb hl
  follows _ hj _ _ hst hF' hweight _ _ h hrefused hend :=
    hp.follows hj hst (hF _ hF') (Nat.le_trans hweight hk) h hrefused fun h => hb (hend h)

theorem down
    (hp : Persists F (k + 1) b l i m p) :
    Persists F k b l i m p :=
  hp.weaken (fun _ => id) (Nat.le_succ k) id (.inl rfl)

/-- What it consumes need not be told. -/
theorem forgive
    (hp : Persists F k b l i m p) :
    Persists F k b .nothing i m p :=
  hp.weaken (fun _ => id) (Nat.le_refl k) id (.inr (.inl rfl))

/-- Whatever is in front. -/
theorem anywhere
    (hp : Persists anything k b l i m p) :
    Persists F k b l i m p :=
  hp.weaken (fun _ _ => trivial) (Nat.le_refl k) id (.inl rfl)

theorem map
    {f : α → β} (hp : Persists F k b l i m p) :
    Persists F k b l i m (f <$> p) := by
  rw [map_eq_pure_bind]
  exact hp.paid fun a => pure (f a)

/-! ### Choices -/

theorem either
    {x : Prop} [Decidable x] {p q : Parse α} (hp : Persists F k b l i m p)
    (hq : Persists F k b l i m q) :
    Persists F k b l i m (if x then p else q) := by
  split
  · exact hp
  · exact hq

/-- A part that is read or replaced by a default. -/
theorem optional
    {x : Prop} [Decidable x] {a : α} (hp : Persists F k b l i m (p >>= f))
    (hdefault : Persists F k b l i m (f a)) :
    Persists F k b l i m
      (have j := f; if x then p >>= fun y => j y else Pure.pure a >>= fun y => j y) :=
  either hp hdefault

/-- A part that is replaced by a default or read. -/
theorem otherwise
    {x : Prop} [Decidable x] {a : α} (hp : Persists F k b l i m (p >>= f))
    (hdefault : Persists F k b l i m (f a)) :
    Persists F k b l i m
      (have j := f; if x then Pure.pure a >>= fun y => j y else p >>= fun y => j y) :=
  either hdefault hp

/-! ### Looking at the state -/

/-- At the end of the first text a reader that comes there finds no other success. -/
def Careful (F : Token → Prop) (b : Prop) (l : Load) : Prop :=
  ∀ t, F t → t.isEof = true → b → l.moves = true

theorem Careful.inside : Careful F False l :=
  fun _ _ _ h => h.elim

theorem Careful.moving (hl : l.moves = true) : Careful F b l :=
  fun _ _ _ _ => hl

theorem Careful.at {t : Token} (ht : t.isEof = false) : Careful (· = t) b l := by
  rintro _ rfl hend
  rw [ht] at hend
  cases hend

/-- A look at the state, of which only a part is asked for. -/
theorem look
    {γ : Type} {o : State → α} {c : α → γ} (hp : ∀ s, p s = .ok (o s) s)
    (hc : ∀ x y, c x = c y → f x = f y)
    (hlook : ∀ j : Joint, j.Clean → ∀ s t, Ahead j s t → F s.current.1 →
      (s.current.1.isEof = true → b ∧ l.moves = false) → c (o t) = c (o s))
    (hf : ∀ a, Persists F k b l i m (f a)) :
    Persists F k b l i m (p >>= f) where
  spends s hs hF _ _ h := by
    rw [ok_bind (hp s)] at h
    exact (hf _).spends hs hF h
  follows j hj s t hst hF hweight _ _ h hrefused hend := by
    rw [ok_bind (hp s)] at h
    have hsame := hlook j hj s t hst hF fun hfront => by
      obtain ⟨hend', hmoves⟩ := ((hf _).spends (hst.ends hj) hF h).at_end (hst.ends hj) hfront
      exact ⟨hend hend', hmoves⟩
    obtain ⟨t', ht', hst'⟩ := (hf _).follows hj hst hF hweight h hrefused hend
    exact ⟨t', by rw [ok_bind (hp t), hc _ _ hsame, ht'], hst'⟩

/-- A look at what is in front, by a reader that has no success at the end. -/
theorem lookInside
    {o : State → α} (hp : ∀ s, p s = .ok (o s) s)
    (hlook : ∀ s t : State, s.current = t.current → s.last = t.last → o s = o t)
    (hf : ∀ a, Persists F k b l i m (f a)) (hsafe : Careful F b l) :
    Persists F k b l i m (p >>= f) := by
  refine look (c := id) hp (fun x y h => congrArg f h) (fun j _ s t hst hF hfront => ?_) hf
  refine hlook t s (hst.current_eq ?_) hst.last_eq
  by_contra hend
  obtain ⟨hb, hmoves⟩ := hfront (Bool.of_not_eq_false hend)
  rw [hsafe _ hF (Bool.of_not_eq_false hend) hb] at hmoves
  cases hmoves

theorem place
    {f : Span → Parse β} (hf : ∀ a, Persists F k b l i m (f a)) (hsafe : Careful F b l) :
    Persists F k b l i m (currentSpan >>= f) :=
  lookInside (o := fun s => s.current.2) (fun _ => rfl) (fun _ _ h _ => by rw [h]) hf hsafe

theorem continuesLine
    {f : Bool → Parse β} (hf : ∀ a, Persists F k b l i m (f a)) (hsafe : Careful F b l) :
    Persists F k b l i m (Grammar.continuesLine >>= f) := by
  refine lookInside (o := State.joinsLine) (fun _ => rfl) (fun s t h hlast => ?_) hf hsafe
  rw [State.joinsLine, State.joinsLine, h, hlast]

theorem current
    {f : Token → Parse β} (hf : ∀ a, Persists F k b l i m (f a)) (hsafe : Careful F b l) :
    Persists F k b l i m (Grammar.current >>= f) :=
  lookInside (o := fun s => s.current.1) (fun _ => rfl) (fun _ _ h _ => by rw [h]) hf hsafe

theorem atEof
    {f : Bool → Parse β} (hf : ∀ a, Persists F k b l i m (f a)) (hsafe : Careful F b l) :
    Persists F k b l i m (Grammar.atEof >>= f) :=
  lookInside (o := fun s => s.current.1.isEof) (fun _ => rfl) (fun _ _ h _ => by rw [h]) hf hsafe

theorem atWord
    {f : Bool → Parse β} (w : Keyword) (hf : ∀ a, Persists F k b l i m (f a))
    (hsafe : Careful F b l) :
    Persists F k b l i m (Grammar.atWord w >>= f) :=
  lookInside (o := fun s => s.current.1.isKeyword w) (fun _ => rfl) (fun _ _ h _ => by rw [h]) hf
    hsafe

theorem atAnyWord
    {f : Bool → Parse β} (ws : List Keyword) (hf : ∀ a, Persists F k b l i m (f a))
    (hsafe : Careful F b l) :
    Persists F k b l i m (Grammar.atAnyWord ws >>= f) :=
  lookInside (o := fun s => ws.any s.current.1.isKeyword) (fun _ => rfl) (fun _ _ h _ => by rw [h])
    hf hsafe

theorem atMark
    {f : Bool → Parse β} (w : Mark) (hf : ∀ a, Persists F k b l i m (f a))
    (hsafe : Careful F b l) :
    Persists F k b l i m (Grammar.atMark w >>= f) :=
  lookInside (o := fun s => s.current.1.isMark w) (fun _ => rfl) (fun _ _ h _ => by rw [h]) hf
    hsafe

/-- The span from a place on; where the first text ends, something of it has been consumed. -/
theorem since
    {a : Span} {f : Span → Parse β} (hf : ∀ a, Persists F k b l i m (f a)) :
    Persists F k b l i m (spanSince a >>= f) := by
  refine look (o := fun s => joinSpans a (s.last.getD s.current.2)) (c := id) (fun _ => rfl)
    (fun x y h => congrArg f h) (fun j hj s t hst hF _ => ?_) hf
  rw [hst.last_eq]
  by_cases hfront : s.current.1.isEof = true
  · obtain ⟨-, -, hlast, -⟩ := hst.seam hj hfront
    obtain ⟨ts, x, hx⟩ := (List.eq_nil_or_concat j.text).resolve_left hj.ne_nil
    rw [hlast, hx]
    simp
  · rw [hst.current_eq (Bool.eq_false_iff.mpr hfront)]

/-! ### The token in front -/

/-- What is done at the end of the text decides what is done there. -/
theorem frontOr
    {f : Token → Parse β}
    (hin : ∀ t, F t → t.isEof = false → Persists (· = t) k b l i m (f t))
    (hend : F .eof → Persists (· = .eof) k b l i m (f .eof))
    (hseam : F .eof → b → l.moves = false → ∀ t : State, t.current.1.opens = true →
      t.joinsLine = false → f t.current.1 t = f .eof t) :
    Persists F k b l i m (Grammar.current >>= f) := by
  have hcurrent (s : State) : Grammar.current s = .ok s.current.1 s := rfl
  constructor
  · intro s hs hF a s' h
    rw [ok_bind (hcurrent s)] at h
    by_cases hfront : s.current.1.isEof = true
    · rw [Token.isEof_iff.mp hfront] at h hF
      exact (hend hF).spends hs (Token.isEof_iff.mp hfront) h
    · exact (hin _ hF (Bool.eq_false_iff.mpr hfront)).spends hs rfl h
  · intro j hj s t hst hF hweight a s' h hrefused hlast
    rw [ok_bind (hcurrent s)] at h
    rw [ok_bind (hcurrent t)]
    by_cases hfront : s.current.1.isEof = true
    · rw [Token.isEof_iff.mp hfront] at h hF
      have hsame : f t.current.1 t = f .eof t := by
        obtain hsame | hfresh := hj.seam
        · have hrest := (hst.same hsame).1
          rw [State.current, hrest, ← State.current, Token.isEof_iff.mp hfront]
        · obtain ⟨-, hrest, -, -⟩ := hst.seam hj hfront
          have hspent := (hend hF).spends (hst.ends hj) (Token.isEof_iff.mp hfront) h
          obtain ⟨hend', hmoves⟩ := hspent.at_end (hst.ends hj) hfront
          refine hseam hF (hlast hend') hmoves t ?_ (hst.joinsLine_seam hj hfresh hfront)
          rw [State.current, hrest]
          exact hfresh.opens
      rw [hsame]
      exact (hend hF).follows hj hst (Token.isEof_iff.mp hfront) hweight h hrefused hlast
    · have hfront' := Bool.eq_false_iff.mpr hfront
      rw [hst.current_eq hfront']
      exact (hin _ hF hfront').follows hj hst rfl hweight h hrefused hlast

/-- What a reader that consumes something leaves. -/
theorem length_lt
    {s s' : State} {a : α} (hp : Persists F k b l i m p) (hl : l.moves = true) (hs : s.Ends)
    (hF : F s.current.1) (h : p s = .ok a s') :
    s'.Ends ∧ s'.rest.length < s.rest.length := by
  have hspent := hp.spends hs hF h
  exact ⟨hspent.ends, hspent.length_lt hl⟩

/-- The token in front, by a reader that has no success at the end. -/
theorem front
    {f : Token → Parse β} (hf : ∀ t, F t → Persists (· = t) k b l i m (f t))
    (hsafe : Careful F b l) :
    Persists F k b l i m (Grammar.current >>= f) := by
  refine frontOr (fun t hF _ => hf t hF) (hf .eof) fun hF hb hmoves => ?_
  rw [hsafe .eof hF rfl hb] at hmoves
  cases hmoves

theorem consumeLoad
    {t : Token} (ht : t.isEof = false) (hquestion : t ≠ .mark .question)
    (hcloses : ∀ a, Closes i m [(t, a)]) (hload : ∀ a, l.Holds [(t, a)])
    (hb : b → t.promises = false) :
    Persists (· = t) k b l i m Grammar.advance where
  spends s hs hF _ _ h := by
    cases h
    subst hF
    exact .step hs rfl ht hquestion (hcloses s.current.2) (hload s.current.2) hb
  follows _ _ s t' hst hF _ _ _ h _ _ := by
    cases h
    exact ⟨t'.advance, rfl, hst.advance (hF ▸ ht)⟩

theorem consume
    {t : Token} (ht : t.isEof = false) (hquestion : t ≠ .mark .question)
    (hcloses : ∀ a, Closes i m [(t, a)]) (hb : b → t.promises = false) :
    Persists (· = t) k b .something i m Grammar.advance :=
  consumeLoad ht hquestion hcloses (fun _ => List.cons_ne_nil _ _) hb

/-- The token in front, if it is neither a parenthesis nor a question mark. -/
theorem consumeInner
    {t : Token} (ht : t.isInner = true) (hb : b → t.promises = false) :
    Persists (· = t) k b .something i i Grammar.advance :=
  consume (Token.isEof_of_isInner ht) (Token.ne_question_of_isInner ht) (fun _ => .token ht) hb

section Steps

variable {t : Token} {x : Unit → Parse β}

/-- A step over the token in front, behind which the piece may end. -/
theorem step
    (ht : t.isLast = true) (hx : Persists anything k b .nothing i m (x ())) :
    Persists (· = t) (k + 1) b .something i m (Grammar.advance >>= x) := by
  obtain ⟨hinner, hlast⟩ := (Bool.and_eq_true _ _).mp ht
  have hplain : t.promises = false := by simpa using hlast
  exact (consumeInner hinner fun _ => hplain).pay (fun _ => hx) rfl

/-- A step over the token in front, behind which there is more to come. -/
theorem stepOn
    (ht : t.isInner = true) (hx : Persists anything k b l i m (x ())) (hl : l.moves = true) :
    Persists (· = t) (k + 1) b l i m (Grammar.advance >>= x) := by
  exact (consumeInner ht False.elim).payInside (fun _ => hx) rfl hl

/-- A step over a question mark, behind which two tokens are consumed at least. -/
theorem stepQuestion
    (hx : Persists anything k b l i m (x ()))
    (hlong : ∀ s a s', s.Ends → x () s = .ok a s' → s'.rest.length + 2 ≤ s.rest.length) :
    Persists (· = .mark .question) (k + 1) b l i m (Grammar.advance >>= x) where
  spends s hs hF a s' h := by
    rw [ok_bind (show Grammar.advance s = .ok () s.advance from rfl)] at h
    have hends := hs.advance (hF ▸ rfl)
    exact (hx.spends hends trivial h).question hs hF (hlong _ _ _ hends h)
  follows j hj s t hst hF hweight a s' h hrefused hend := by
    have hfront : s.current.1.isEof = false := hF ▸ rfl
    obtain ⟨y, u, r, hrest, -⟩ := (hst.ends hj).rest_eq_cons hfront
    have hlt : tokensWeight s.advance.rest < tokensWeight s.rest := by
      rw [State.advance_eq hrest]
      exact tokensWeight_lt_of_suffix ⟨[y], hrest.symm⟩ (by rw [hrest]; exact Nat.lt_succ_self _)
    rw [ok_bind (show Grammar.advance s = .ok () s.advance from rfl)] at h
    rw [ok_bind (show Grammar.advance t = .ok () t.advance from rfl)]
    refine hx.follows hj (hst.advance hfront) trivial (by omega) h ?_ hend
    rw [hrefused, State.advance_eq hrest]

end Steps

/-- Two readers that both consume something consume two tokens. -/
theorem two_le
    {s s' : State} {c : β} (hp : Persists F k b .something i n p)
    (hf : ∀ a, Persists anything k b' .something n m (f a)) (hs : s.Ends) (hF : F s.current.1)
    (h : (p >>= f) s = .ok c s') :
    s'.Ends ∧ s'.rest.length + 2 ≤ s.rest.length := by
  obtain ⟨a, s₁, hp₁, hf₁⟩ := ok_of_bind h
  obtain ⟨hends, hlt⟩ := hp.length_lt rfl hs hF hp₁
  obtain ⟨hends', hlt'⟩ := (hf a).length_lt rfl hends trivial hf₁
  exact ⟨hends', by omega⟩

/-! ### Consuming what is expected -/

/-- A reader that consumes the token `u` if it is in front, and tells whether it was. -/
structure Eats (u : Token) (ate : Parse Bool) : Prop where
  yes : ∀ s : State, s.current.1 = u → ate s = .ok true s.advance
  no : ∀ s : State, s.current.1 ≠ u → ate s = .ok false s

theorem Eats.mark (w : Mark) : Eats (.mark w) (Grammar.eatMark w) := by
  have happly (s : State) : Grammar.eatMark w s =
      if s.current.1.isMark w then .ok true s.advance else .ok false s := by
    show (ite (s.current.1.isMark w = true) _ _ : Parse Bool) s = _
    split <;> rfl
  constructor
  · intro s hs
    rw [happly, if_pos (Token.isMark_iff.mpr hs)]
  · intro s hs
    rw [happly, if_neg (hs ∘ Token.isMark_iff.mp)]

theorem Eats.word (w : Keyword) : Eats (.keyword w) (Grammar.eatWord w) := by
  have happly (s : State) : Grammar.eatWord w s =
      if s.current.1.isKeyword w then .ok true s.advance else .ok false s := by
    show (ite (s.current.1.isKeyword w = true) _ _ : Parse Bool) s = _
    split <;> rfl
  constructor
  · intro s hs
    rw [happly, if_pos (Token.isKeyword_iff.mpr hs)]
  · intro s hs
    rw [happly, if_neg (hs ∘ Token.isKeyword_iff.mp)]

/-- A part read where the token in front is the one asked for, and another elsewhere.  A reader that
may come to the end asks for tokens only that cannot begin the second text. -/
theorem ifAsked
    {u : Token} {ask : Parse Bool} {x y : Parse β} (hyes : ∀ s : State, s.current.1 = u →
      ask s = .ok true s) (hno : ∀ s : State, s.current.1 ≠ u → ask s = .ok false s)
    (hu : u.isEof = false) (hx : Persists (· = u) k b l i m x) (hy : Persists F k b l i m y)
    (hseam : b → l.moves = false → u.opens = false) :
    Persists F k b l i m (do if ← ask then x else y) := by
  constructor
  · intro s hs hF a s' h
    by_cases hfront : s.current.1 = u
    · rw [ok_bind (hyes s hfront)] at h
      exact hx.spends hs hfront h
    · rw [ok_bind (hno s hfront)] at h
      exact hy.spends hs hF h
  · intro j hj s t hst hF hweight a s' h hrefused hlast
    by_cases hfront : s.current.1 = u
    · rw [ok_bind (hyes s hfront)] at h
      have ht := hst.current_eq (hfront ▸ hu)
      rw [ok_bind (hyes t (ht ▸ hfront))]
      exact hx.follows hj hst hfront hweight h hrefused hlast
    · rw [ok_bind (hno s hfront)] at h
      have ht : t.current.1 ≠ u := by
        by_cases heof : s.current.1.isEof = true
        · obtain hsame | hfresh := hj.seam
          · rw [State.current, (hst.same hsame).1]
            exact hfront
          · obtain ⟨-, hrest, -, -⟩ := hst.seam hj heof
            have hfinish := (hy.spends (hst.ends hj) hF h).at_end (hst.ends hj) heof
            rintro hu'
            have hopens := hfresh.opens
            rw [State.current, hrest] at hu'
            change j.first.1 = u at hu'
            rw [hu', hseam (hlast hfinish.1) hfinish.2] at hopens
            cases hopens
        · rw [hst.current_eq (Bool.eq_false_iff.mpr heof)]
          exact hfront
      rw [ok_bind (hno t ht)]
      exact hy.follows hj hst hF hweight h hrefused hlast

theorem atMark_yes
    (w : Mark) (s : State) (hs : s.current.1 = .mark w) :
    Grammar.atMark w s = .ok true s := by
  show EStateM.Result.ok (s.current.1.isMark w) s = _
  rw [Token.isMark_iff.mpr hs]

theorem atMark_no
    (w : Mark) (s : State) (hs : s.current.1 ≠ .mark w) :
    Grammar.atMark w s = .ok false s := by
  show EStateM.Result.ok (s.current.1.isMark w) s = _
  rw [Bool.eq_false_iff.mpr (hs ∘ Token.isMark_iff.mp)]

theorem ifMark
    {w : Mark} {x y : Parse β} (hx : Persists (· = .mark w) k b l i m x)
    (hy : Persists F k b l i m y)
    (hseam : b → l.moves = false → (Token.mark w).opens = false) :
    Persists F k b l i m (do if ← Grammar.atMark w then x else y) :=
  ifAsked (atMark_yes w) (atMark_no w) rfl hx hy hseam

theorem ifWord
    {w : Keyword} {x y : Parse β} (hx : Persists (· = .keyword w) k b l i m x)
    (hy : Persists F k b l i m y)
    (hseam : b → l.moves = false → (Token.keyword w).opens = false) :
    Persists F k b l i m (do if ← Grammar.atWord w then x else y) := by
  refine ifAsked (fun s hs => ?_) (fun s hs => ?_) rfl hx hy hseam
  · show EStateM.Result.ok (s.current.1.isKeyword w) s = _
    rw [Token.isKeyword_iff.mpr hs]
  · show EStateM.Result.ok (s.current.1.isKeyword w) s = _
    rw [Bool.eq_false_iff.mpr (hs ∘ Token.isKeyword_iff.mp)]

/-- Eating a token is consuming it where it is asked for and there. -/
theorem Eats.split
    {u : Token} {ate : Parse Bool} (hate : Eats u ate) (x y : Parse β) :
    ∃ ask : Parse Bool, (∀ s : State, s.current.1 = u → ask s = .ok true s) ∧
      (∀ s : State, s.current.1 ≠ u → ask s = .ok false s) ∧
      (do if ← ate then x else y) = (do if ← ask then (do Grammar.advance; x) else y) := by
  classical
  let ask : Parse Bool := fun s => .ok (decide (s.current.1 = u)) s
  have hyes (s : State) (hs : s.current.1 = u) : ask s = .ok true s := by
    simp [ask, hs]
  have hno (s : State) (hs : s.current.1 ≠ u) : ask s = .ok false s := by
    simp [ask, hs]
  refine ⟨ask, hyes, hno, ?_⟩
  funext s
  by_cases hs : s.current.1 = u
  · rw [ok_bind (hate.yes s hs), ok_bind (hyes s hs)]
    rfl
  · rw [ok_bind (hate.no s hs), ok_bind (hno s hs)]
    rfl

theorem ifEaten
    {u : Token} {ate : Parse Bool} {x y : Parse β} (hate : Eats u ate) (hu : u.isEof = false)
    (hx : Persists (· = u) k b l i m (do Grammar.advance; x)) (hy : Persists F k b l i m y)
    (hseam : b → l.moves = false → u.opens = false) :
    Persists F k b l i m (do if ← ate then x else y) := by
  obtain ⟨ask, hyes, hno, hsplit⟩ := hate.split x y
  rw [hsplit]
  exact ifAsked hyes hno hu hx hy hseam

theorem eatMark
    {w : Mark} (hw : (Token.mark w).isInner = true) :
    Persists F k False .nothing i i (Grammar.eatMark w) := by
  refine ifMark ?_ (pure false) False.elim
  exact (consumeInner hw False.elim).forgive.bind fun _ => pure true

theorem eatWord
    {w : Keyword} :
    Persists F k False .nothing i i (Grammar.eatWord w) := by
  refine ifWord ?_ (pure false) False.elim
  exact (consumeInner rfl False.elim).forgive.bind fun _ => pure true

theorem expectMark
    {w : Mark} (hw : (Token.mark w).isLast = true) :
    Persists F k b .something i i (Grammar.expectMark w) :=
  ifEaten (.mark w) rfl (step hw (pure ())).down (failExpecting _) fun _ h => by cases h

/-- A mark behind which there is more to come. -/
theorem expectInner
    {w : Mark} (hw : (Token.mark w).isInner = true) :
    Persists F k False .something i i (Grammar.expectMark w) := by
  refine ifEaten (.mark w) rfl ?_ (failExpecting _) False.elim
  exact (consumeInner hw False.elim).paid fun _ => pure ()

theorem expectOpening :
    Persists F k b .something i (i + 1) (Grammar.expectMark .leftParen) := by
  refine ifEaten (.mark _) rfl ?_ (failExpecting _) fun _ h => by cases h
  exact (consume rfl (fun h => by cases h) .opening fun _ => rfl).paid fun _ => pure ()

theorem expectClosing :
    Persists F k b .something (i + 1) i (Grammar.expectMark .rightParen) := by
  refine ifEaten (.mark _) rfl ?_ (failExpecting _) fun _ h => by cases h
  exact (consume rfl (fun h => by cases h) .closing fun _ => rfl).paid fun _ => pure ()

theorem expectWord
    {w : Keyword} (hw : (Token.keyword w).isLast = true) :
    Persists F k b .something i i (Grammar.expectWord w) :=
  ifEaten (.word w) rfl (step hw (pure ())).down (failExpecting _) fun _ h => by cases h

theorem expectName :
    Persists F k b .something i i Grammar.expectName := by
  refine front (fun t _ => ?_) (.moving rfl)
  cases t with
  | identifier name =>
      exact (step rfl (pure name)).down
  | _ =>
      exact failExpecting _

theorem accessedName :
    Persists F k b .something i i Grammar.accessedName := by
  refine front (fun t _ => ?_) (.moving rfl)
  cases t with
  | keyword w =>
      cases hw : (Token.keyword w).memberWord? with
      | none =>
          exact expectName
      | some text =>
          refine (step ?_ (pure text)).down
          cases w <;> first | rfl | cases hw
  | _ =>
      exact expectName

theorem closeBlock
    (openedBy : String) (a : Span) :
    Persists F k b .closure i i (Grammar.closeBlock openedBy a) := by
  refine ifWord ?_ (atEof (fun _ => either (throw _) (failExpecting _)) (.moving rfl)) fun _ h => by
    cases h
  exact consumeLoad rfl (Token.ne_question_of_isInner rfl) (fun _ => .token rfl)
    (fun a => ⟨_, List.mem_singleton_self _, rfl⟩) fun _ => rfl

/-- After a comma there is more to come. -/
theorem more
    (a : α) :
    Persists F k False .nothing i i
      (do if ← Grammar.eatMark .comma then return Round.again a else return Round.done a) :=
  (eatMark rfl).bind fun _ => either (pure _) (pure _)

/-! ### Going deeper, going on -/

theorem nested
    (hp : Persists F k b l i m p) :
    Persists F k b l i m (Grammar.nested p) := by
  have hinner {s s' : State} {a : α} (h : Grammar.nested p s = .ok a s') :
      ¬ maxDepth < s.depth + 1 ∧ ∃ s₁, p { s with depth := s.depth + 1 } = .ok a s₁ ∧
        s' = { s₁ with depth := s₁.depth - 1 } := by
    rw [nested_apply] at h
    split at h
    · cases h
    · next hlimit =>
        cases hp' : p { s with depth := s.depth + 1 } with
        | ok a₁ s₁ =>
            rw [hp'] at h
            cases h
            exact ⟨hlimit, s₁, rfl, rfl⟩
        | error e s₁ =>
            rw [hp'] at h
            cases h
  constructor
  · intro s hs hF a s' h
    obtain ⟨-, s₁, hp₁, rfl⟩ := hinner h
    obtain ⟨c, hrest, hends, hgrows, hcloses, hload, hsettled, hlast⟩ :=
      hp.spends (hs.withDepth (d := s.depth + 1)) hF hp₁
    have hgrows' (h : s.Within k) : s.Grows s₁ := by
      obtain ⟨hsize, hrefused⟩ := hgrows ⟨h.fits, h.weight⟩
      exact ⟨hsize, hrefused⟩
    exact ⟨c, hrest, hends, fun h => ⟨(hgrows' h).size, (hgrows' h).refused⟩, hcloses, hload,
      ⟨hsettled.question, hsettled.super⟩, hlast⟩
  · intro j hj s t hst hF hweight a s' h hrefused hend
    obtain ⟨hlimit, s₁, hp₁, rfl⟩ := hinner h
    have hdepth := hst.depth_le
    obtain ⟨t₁, ht₁, hst₁⟩ := hp.follows hj (hst.level (Nat.succ_le_succ hdepth)) hF hweight hp₁
      hrefused hend
    refine ⟨{ t₁ with depth := t₁.depth - 1 }, ?_,
      hst₁.level (Nat.sub_le_sub_right hst₁.depth_le 1)⟩
    rw [nested_apply, if_neg (by omega), ht₁]

/-- A repetition that succeeds does so in its first round, and in the others if there are any. -/
theorem repeatBounded_ok
    {round : α → Parse (Round α β)} {n : Nat} {a : α} {s s' : State} {y : β}
    (h : repeatBounded round (n + 1) a s = .ok y s') :
    ∃ r s₁, round a s = .ok r s₁ ∧ ((r = .done y ∧ s₁ = s') ∨
      ∃ a', r = .again a' ∧ repeatBounded round n a' s₁ = .ok y s') := by
  obtain ⟨r, s₁, hr, hrest⟩ := ok_of_bind h
  refine ⟨r, s₁, hr, ?_⟩
  cases r with
  | again a' =>
      exact .inr ⟨a', rfl, hrest⟩
  | done y' =>
      cases hrest
      exact .inl ⟨rfl, rfl⟩

theorem repeatBounded_spent
    {round : α → Parse (Round α β)} (hround : ∀ a, Persists anything k b l i i (round a)) (n : Nat)
    {a : α} {s s' : State} {y : β} (hs : s.Ends) (h : repeatBounded round n a s = .ok y s') :
    Spent k b l i i s s' := by
  induction n generalizing a s with
  | zero =>
      cases h
  | succ n ih =>
      obtain ⟨r, s₁, hr, ⟨rfl, rfl⟩ | ⟨a', rfl, hrest⟩⟩ := repeatBounded_ok h
      · exact (hround a).spends hs trivial hr
      · have hfirst := (hround a).spends hs trivial hr
        exact hfirst.trans (ih hfirst.ends hrest) .inl (.inl (Nat.le_refl k)) (.inl rfl)

theorem repeatRead
    {round : α → Parse (Round α β)} (hround : ∀ a, Persists anything k b l i i (round a)) (a : α) :
    Persists F k b l i i (Grammar.repeatRead round a) := by
  have hfollows {j : Joint} (hj : j.Clean) (n n' : Nat) {a : α} {s t s' : State} {y : β}
      (hle : n ≤ n') (hst : Ahead j s t) (hweight : tokensWeight s.rest ≤ k)
      (h : repeatBounded round n a s = .ok y s') (hrefused : s'.refused = s.refused)
      (hend : s'.current.1.isEof = true → b) :
      ∃ t', repeatBounded round n' a t = .ok y t' ∧ Ahead j s' t' := by
    induction n generalizing n' a s t with
    | zero =>
        cases h
    | succ n ih =>
        obtain ⟨n', rfl⟩ := Nat.exists_eq_add_of_le' (Nat.lt_of_lt_of_le n.succ_pos hle)
        obtain ⟨r, s₁, hr, ⟨rfl, rfl⟩ | ⟨a', rfl, hrest⟩⟩ := repeatBounded_ok h
        · obtain ⟨t₁, ht₁, hst₁⟩ := (hround a).follows hj hst trivial hweight hr hrefused hend
          exact ⟨t₁, ok_bind ht₁, hst₁⟩
        · have hfirst := (hround a).spends (hst.ends hj) trivial hr
          have hsecond := repeatBounded_spent hround n hfirst.ends hrest
          have hwithin := hst.within hweight
          have hge := (hfirst.grows hwithin).refused
          have hge' := (hsecond.grows (hfirst.within hwithin (.inl (Nat.le_refl k)))).refused
          obtain ⟨t₁, ht₁, hst₁⟩ := (hround a).follows hj hst trivial hweight hr (by omega)
            fun hend₁ => hend (hsecond.at_end hfirst.ends hend₁).1
          obtain ⟨t', ht', hst'⟩ := ih n' (Nat.le_of_succ_le_succ hle) hst₁
            (Nat.le_trans hfirst.weight_le hweight) hrest (by omega)
          exact ⟨t', (ok_bind ht₁).trans ht', hst'⟩
  constructor
  · intro s hs _ y s' h
    exact repeatBounded_spent hround _ hs h
  · intro j hj s t hst _ hweight y s' h hrefused hend
    exact hfollows hj _ _ (Nat.succ_le_succ hst.size_le) hst hweight h hrefused hend

/-! ### The token behind the one in front -/

theorem peek_ok
    (n : Nat) (s : State) :
    Grammar.peek n s = .ok ((s.rest[n]?.map Prod.fst).getD .eof) s := by
  show EStateM.Result.ok _ s = _
  cases s.rest[n]? <;> rfl

theorem peekSpan_ok
    (n : Nat) (s : State) :
    Grammar.peekSpan n s =
      .ok ((s.rest[n]?.map Prod.snd).getD ((s.rest.getLast?.map Prod.snd).getD default)) s := by
  show EStateM.Result.ok _ s = _
  cases s.rest[n]? <;> rfl

/-- Whether a mark comes next that cannot begin the second text. -/
theorem ifNext
    {w : Mark} {x y : Parse β} (hx : Persists F k b l i m x) (hy : Persists F k b l i m y)
    (hw : (Token.mark w).opens = false) (hF : ∀ t, F t → t.isEof = false) :
    Persists F k b l i m (do if (← Grammar.peek 1).isMark w then x else y) := by
  refine look (o := fun s => (s.rest[1]?.map Prod.fst).getD .eof) (c := (·.isMark w)) (peek_ok 1)
    (fun u v h => ?_) (fun j hj s t hst hfront _ => ?_) fun u => either hx hy
  · rw [h]
  · obtain ⟨u, hs, ht⟩ | ⟨hs, ht, -⟩ := hst.second (hF _ hfront)
    · rw [hs, ht]
    · rw [hs, ht]
      obtain ⟨hfirst, -⟩ | hfresh := hj.seam
      · rw [hfirst]
      · refine Bool.eq_false_iff.mpr fun hmark => ?_
        have hfirst : j.first.1 = .mark w := Token.isMark_iff.mp hmark
        have hopens := hfresh.opens
        rw [hfirst, hw] at hopens
        cases hopens

/-- Whether a parenthesis comes next.  A reader that finds the end of the text there instead comes
to the end itself if it succeeds. -/
theorem ifNextOpening
    {x y : Parse β} (hx : Persists F k b l i m x) (hy : Persists F k b l i m y)
    (hF : ∀ t, F t → t.isEof = false)
    (hlast : ∀ s a s', s.Ends → F s.current.1 → s.rest.length = 2 → y s = .ok a s' →
      s'.current.1.isEof = true ∧ ¬ b) :
    Persists F k b l i m (do if (← Grammar.peek 1).isMark .leftParen then x else y) := by
  constructor
  · intro s hs hfront a s' h
    rw [ok_bind (peek_ok 1 s)] at h
    split at h
    · exact hx.spends hs hfront h
    · exact hy.spends hs hfront h
  · intro j hj s t hst hfront hweight a s' h hrefused hend
    rw [ok_bind (peek_ok 1 s)] at h
    have hcase : (t.rest[1]?.map Prod.fst).getD .eof = (s.rest[1]?.map Prod.fst).getD .eof ∨
        (s.rest[1]?.map Prod.fst).getD .eof = .eof ∧ s.rest.length = 2 := by
      obtain ⟨u, hs, ht⟩ | ⟨hs, -, hlength⟩ := hst.second (hF _ hfront)
      · exact .inl (by rw [hs, ht])
      · exact .inr ⟨by rw [hs]; rfl, hlength⟩
    obtain hsame | ⟨heof, hlength⟩ := hcase
    · rw [← hsame] at h
      split at h
      · next hopening =>
          obtain ⟨t', ht', hst'⟩ := hx.follows hj hst hfront hweight h hrefused hend
          exact ⟨t', by rw [ok_bind (peek_ok 1 t), if_pos hopening, ht'], hst'⟩
      · next hopening =>
          obtain ⟨t', ht', hst'⟩ := hy.follows hj hst hfront hweight h hrefused hend
          exact ⟨t', by rw [ok_bind (peek_ok 1 t), if_neg hopening, ht'], hst'⟩
    · rw [heof] at h
      obtain ⟨hfinish, hb⟩ := hlast s a s' (hst.ends hj) hfront hlength h
      exact absurd (hend hfinish) hb

end Persists
end Rules

end Grammar
end ScriptEngine
