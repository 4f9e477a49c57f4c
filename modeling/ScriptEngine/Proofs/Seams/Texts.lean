import ScriptEngine.Proofs.Grammar.Composition

/-!
# Where one text meets the next

A text is read alone, and once more with another text behind it.  As long as the reading alone
succeeds, the other one does the same, provided that the second text begins on a line of its own and
what it begins with does not go on with what the first one ends with (`Joint.Clean`).

`Persists` is said of a reader.  It tells two things at once: what a reader consumes when it
succeeds, and that its success persists when another text follows and when there are fewer levels
above it.  The first is needed for the second: the reader of a parenthesis looks for the one that
closes it, and finds it within the first text because expressions consume as many of one kind as of
the other (`Closes`).
-/

namespace ScriptEngine

namespace Token

/-- Whether a token may be the first of a statement, or end or separate statements. -/
def opens : Token → Bool
  | mark m =>
    match m with
    | .minus | .bang | .leftParen | .leftBracket | .leftBrace | .semicolon => true
    | _ => false
  | keyword k =>
    match k with
    | .implementsKw | .extendsKw | .elifKw | .elseKw | .inKw | .whereKw | .endKw | .doKw | .caseKw
    | .defaultKw | .catchKw | .finallyKw | .spawnKw | .joinKw | .closedKw | .outKw => false
    | _ => true
  | _ => true

/-- Whether an expression may begin with a token. -/
def begins : Token → Bool
  | int _ | float _ | string _ | template _ | identifier _ => true
  | keyword k =>
    match k with
    | .trueKw | .falseKw | .nilKw | .thisKw | .superKw | .instanceofKw | .threadKw | .channelKw =>
      true
    | _ => false
  | mark m =>
    match m with
    | .minus | .bang | .leftParen | .leftBracket | .leftBrace => true
    | _ => false
  | eof => false

/-- Whether there is more to come after a token in whatever it belongs to. -/
def promises : Token → Bool
  | mark .less | mark .comma | mark .pipe | keyword .extendsKw => true
  | _ => false

theorem Alike.opens_eq {t u : Token} (h : t.Alike u) : t.opens = u.opens := by
  cases h with
  | _ => rfl

def isParen (t : Token) : Bool := t.isMark .leftParen || t.isMark .rightParen

/-- A token that is neither a parenthesis nor a question mark nor the end of the text. -/
def isInner (t : Token) : Bool := !t.isEof && !t.isParen && !t.isMark .question

theorem isEof_of_isInner {t : Token} (ht : t.isInner = true) : t.isEof = false := by
  cases t <;> first | rfl | cases ht

theorem isEof_iff {t : Token} : t.isEof = true ↔ t = .eof := by
  cases t <;> simp [isEof]

theorem ne_question_of_isInner {t : Token} (ht : t.isInner = true) : t ≠ .mark .question := by
  rintro rfl
  cases ht

/-- A token behind which a piece of grammar may end. -/
def isLast (t : Token) : Bool := t.isInner && !t.promises

theorem isMark_iff {t : Token} {w : Mark} : t.isMark w = true ↔ t = .mark w := by
  cases t with
  | mark w' =>
      rw [isMark, beq_iff_eq, mark.injEq, eq_comm]
  | _ =>
      exact ⟨fun h => (Bool.false_ne_true h).elim, fun h => by cases h⟩

theorem isKeyword_iff {t : Token} {w : Keyword} : t.isKeyword w = true ↔ t = .keyword w := by
  cases t with
  | keyword w' =>
      rw [isKeyword, beq_iff_eq, keyword.injEq, eq_comm]
  | _ =>
      exact ⟨fun h => (Bool.false_ne_true h).elim, fun h => by cases h⟩

end Token

namespace Grammar

/-! ### What is consumed -/

/-- The end of the text stands last and nowhere else. -/
def State.Ends (s : State) : Prop :=
  ∃ (xs : List LocatedToken) (a : Span), s.rest = xs ++ [(.eof, a)] ∧
    ∀ x ∈ xs, x.1.isEof = false

/-- Of the tokens that open and close parentheses, `i` are open before and `m` behind. -/
def Closes (i m : Nat) (c : List LocatedToken) : Prop :=
  ∀ (d : Nat) (r : List LocatedToken), 1 ≤ d → lambdaAhead (d + i) (c ++ r) = lambdaAhead (d + m) r

namespace Closes

variable {i m n : Nat} {c c' : List LocatedToken}

theorem nil :
    Closes i i [] :=
  fun _ _ _ => rfl

theorem append
    (h : Closes i m c) (h' : Closes m n c') :
    Closes i n (c ++ c') := by
  intro d r hd
  rw [List.append_assoc, h d _ hd, h' d r hd]

theorem token
    {t : LocatedToken} (ht : t.1.isInner = true) :
    Closes i i [t] := by
  intro d r _
  obtain ⟨t, a⟩ := t
  cases t with
  | mark m =>
      cases m <;> first | rfl | cases ht
  | eof =>
      cases ht
  | _ =>
      rfl

theorem opening
    (a : Span) :
    Closes i (i + 1) [(.mark .leftParen, a)] :=
  fun _ _ _ => rfl

theorem closing
    (a : Span) :
    Closes (i + 1) i [(.mark .rightParen, a)] := by
  intro d r hd
  have hdeep : ¬ d + (i + 1) ≤ 1 := by omega
  simp only [List.singleton_append, lambdaAhead, hdeep, if_false]
  rfl

end Closes

/-- What a reader consumes at least. -/
inductive Load
  | nothing
  | something
  /-- The word that closes a block. -/
  | closure

namespace Load

def Holds : Load → List LocatedToken → Prop
  | nothing, _ => True
  | something, c => c ≠ []
  | closure, c => ∃ t ∈ c, t.1 = .keyword .endKw

def moves : Load → Bool
  | nothing => false
  | _ => true

variable {l : Load} {c c' : List LocatedToken}

theorem Holds.append_left
    (h : l.Holds c) :
    l.Holds (c ++ c') := by
  cases l with
  | nothing =>
      trivial
  | something =>
      exact List.append_ne_nil_of_left_ne_nil h _
  | closure =>
      obtain ⟨t, ht, hword⟩ := h
      exact ⟨t, List.mem_append_left _ ht, hword⟩

theorem Holds.append_right
    (h : l.Holds c') :
    l.Holds (c ++ c') := by
  cases l with
  | nothing =>
      trivial
  | something =>
      exact List.append_ne_nil_of_right_ne_nil _ h
  | closure =>
      obtain ⟨t, ht, hword⟩ := h
      exact ⟨t, List.mem_append_right _ ht, hword⟩

theorem Holds.ne_nil
    (h : l.Holds c) (hl : l.moves = true) :
    c ≠ [] := by
  cases l with
  | nothing =>
      cases hl
  | something =>
      exact h
  | closure =>
      obtain ⟨t, ht, -⟩ := h
      exact List.ne_nil_of_mem ht

end Load

/-- What was consumed has no bound of a wildcard cut off: behind the question mark that it ends
with, `super` does not come next, and it does not end with that word behind a question mark. -/
structure Settled (c : List LocatedToken) (s : State) : Prop where
  question : ∀ ts a, c = ts ++ [(.mark .question, a)] → s.current.1 ≠ .keyword .superKw
  super : ∀ ts a b, c ≠ ts ++ [(.mark .question, a), (.keyword .superKw, b)]

namespace Settled

variable {c c' : List LocatedToken} {s s' : State}

theorem nil :
    Settled [] s := by
  constructor
  · intro ts a h
    exact absurd h.symm (List.append_ne_nil_of_right_ne_nil _ (List.cons_ne_nil _ _))
  · intro ts a b h
    exact absurd h.symm (List.append_ne_nil_of_right_ne_nil _ (List.cons_ne_nil _ _))

theorem token
    {t : LocatedToken} (ht : t.1 ≠ .mark .question) :
    Settled [t] s := by
  constructor
  · intro ts a h
    obtain ⟨-, hlast⟩ := List.append_inj' ((List.nil_append [t]).trans h) rfl
    rw [List.singleton_inj] at hlast
    exact absurd (congrArg Prod.fst hlast) ht
  · intro ts a b h
    have hlength := congrArg List.length h
    simp at hlength

theorem append
    (h : Settled c s) (h' : Settled c' s') (hrest : s.rest = c' ++ s'.rest) :
    Settled (c ++ c') s' := by
  obtain rfl | ⟨ys, y, rfl⟩ := List.eq_nil_or_concat c'
  · have hcurrent : s'.current = s.current := by
      rw [State.current, State.current, hrest, List.nil_append]
    rw [List.append_nil]
    exact ⟨fun ts a hc => hcurrent ▸ h.question ts a hc, h.super⟩
  · rw [List.concat_eq_append] at h' hrest ⊢
    constructor
    · intro ts a hc
      rw [← List.append_assoc] at hc
      obtain ⟨-, hlast⟩ := List.append_inj' hc rfl
      exact h'.question ys a (by rw [hlast])
    · intro ts a b hc
      rw [← List.append_assoc, show ts ++ [(Token.mark .question, a), (.keyword .superKw, b)] =
        (ts ++ [(.mark .question, a)]) ++ [(.keyword .superKw, b)] by simp] at hc
      obtain ⟨hinit, hlast⟩ := List.append_inj' hc rfl
      obtain rfl | ⟨zs, z, rfl⟩ := List.eq_nil_or_concat ys
      · rw [List.append_nil] at hinit
        refine h.question ts a hinit ?_
        rw [State.current, hrest, List.nil_append, hlast]
        rfl
      · rw [List.concat_eq_append, ← List.append_assoc] at hinit
        obtain ⟨-, hz⟩ := List.append_inj' hinit rfl
        refine h'.super zs a b ?_
        rw [hlast, List.concat_eq_append, hz]
        simp

end Settled

/-- The number of tokens there were stays, and refused readers are not forgotten. -/
structure State.Grows (s s' : State) : Prop where
  size : s'.size = s.size
  refused : s.refused ≤ s'.refused

/-- A state with no more tokens left than there were, and no more than a weight. -/
structure State.Within (k : Nat) (s : State) : Prop where
  fits : s.rest.length ≤ s.size
  weight : tokensWeight s.rest ≤ k

theorem State.Grows.refl
    (s : State) :
    s.Grows s :=
  ⟨rfl, Nat.le_refl _⟩

theorem State.Grows.trans
    {s s' s'' : State} (h : s.Grows s') (h' : s'.Grows s'') :
    s.Grows s'' :=
  ⟨h'.size.trans h.size, Nat.le_trans h.refused h'.refused⟩

theorem State.Grows.advance
    (s : State) :
    s.Grows s.advance := by
  unfold State.advance
  split <;> exact ⟨rfl, Nat.le_refl _⟩

/-- What a reader consumes on its way from a state to another.  Where it may come to the end of the
text (`b`), there is no more to come after what it has consumed. -/
inductive Spent (k : Nat) (b : Prop) (l : Load) (i m : Nat) (s s' : State) : Prop
  | mk (c : List LocatedToken) (hrest : s.rest = c ++ s'.rest) (hends : s'.Ends)
      (hgrows : s.Within k → s.Grows s') (hcloses : Closes i m c) (hload : l.Holds c)
      (hsettled : Settled c s') (hlast : b → ∀ t ∈ c.getLast?, t.1.promises = false)

/-! ### Reading with and without the second text -/

/-- A text, the end of it when it is read alone, and the first token and the others of a text that
follows. -/
structure Joint where
  text : List LocatedToken
  stop : Span
  first : LocatedToken
  behind : List LocatedToken

namespace Joint

/-- The second text begins on another line and with a token that does not go on with the first. -/
structure Fresh (j : Joint) : Prop where
  opens : j.first.1.opens = true
  later : ∀ t ∈ j.text, t.2.line < j.first.2.line
  complete : ∀ t ∈ j.text.getLast?, t.1.promises = false
  /-- The bound of a wildcard does not stand behind it on the next line. -/
  bound : (∃ a ts, j.text = ts ++ [(.mark .question, a)]) → j.first.1.isKeyword .superKw = false
  unbound : ¬ ∃ a b ts, j.text = ts ++ [(.mark .question, a), (.keyword .superKw, b)]
  /-- The local name of an import does not stand behind it on the next line. -/
  named : (∃ a b name ts, j.text = ts ++ [(.keyword .importKw, a), (.identifier name, b)]) →
    j.first.1 ≠ .identifier "as"

/-- What follows is nothing but the end, or begins afresh. -/
structure Clean (j : Joint) : Prop where
  inner : ∀ t ∈ j.text, t.1.isEof = false
  ne_nil : j.text ≠ []
  seam : j.first = (.eof, j.stop) ∧ j.behind = [] ∨ j.Fresh

end Joint

/-- Two readings have come over the same part of the first text, the second one with no more levels
above it. -/
inductive Ahead (j : Joint) : State → State → Prop
  | mk {done xs : List LocatedToken} {d d' n n' r r' : Nat} (htext : done ++ xs = j.text)
      (hdepth : d' ≤ d) (hfits : xs.length + 1 ≤ n) (hsize : n ≤ n') :
      Ahead j ⟨xs ++ [(.eof, j.stop)], done.getLast?.map Prod.snd, d, n, r⟩
        ⟨xs ++ j.first :: j.behind, done.getLast?.map Prod.snd, d', n', r'⟩

/-- The first text with nothing behind it. -/
def Joint.alone (j : Joint) : Joint := ⟨j.text, j.stop, (.eof, j.stop), []⟩

theorem Joint.Clean.alone
    {j : Joint} (hj : j.Clean) :
    j.alone.Clean :=
  ⟨hj.inner, hj.ne_nil, .inl ⟨rfl, rfl⟩⟩

/-- Any token. -/
abbrev anything : Token → Prop := fun _ => True

/-- A reader consumes what it should; and when it succeeds on the first text alone, no reader being
refused, it succeeds in the same way with the second text behind.  Readers that may not come to the
end of the text (`b`) are not asked what they do there. -/
structure Persists (F : Token → Prop) (k : Nat) (b : Prop) (l : Load) (i m : Nat) {α : Type}
    (p : Parse α) : Prop where
  spends : ∀ ⦃s : State⦄, s.Ends → F s.current.1 → ∀ ⦃a : α⦄ ⦃s' : State⦄, p s = .ok a s' →
    Spent k b l i m s s'
  follows : ∀ ⦃j : Joint⦄, j.Clean → ∀ ⦃s t : State⦄, Ahead j s t → F s.current.1 →
    tokensWeight s.rest ≤ k → ∀ ⦃a : α⦄ ⦃s' : State⦄, p s = .ok a s' → s'.refused = s.refused →
      (s'.current.1.isEof = true → b) → ∃ t', p t = .ok a t' ∧ Ahead j s' t'

/-! ### Ends and seams -/

theorem State.Ends.of_suffix
    {s s' : State} {c : List LocatedToken} (hs : s.Ends) (hrest : s.rest = c ++ s'.rest)
    (hne : s'.rest ≠ []) :
    s'.Ends := by
  obtain ⟨xs, a, hxs, hinner⟩ := hs
  obtain ⟨ys, y, hys⟩ := (List.eq_nil_or_concat s'.rest).resolve_left hne
  rw [hrest, hys, List.concat_eq_append, ← List.append_assoc] at hxs
  obtain ⟨hinit, hlast⟩ := List.append_inj' hxs rfl
  refine ⟨ys, a, ?_, fun x hx => hinner x ?_⟩
  · rw [hys, List.concat_eq_append, hlast]
  · exact hinit ▸ List.mem_append_right _ hx

/-- Where the end of the text is in front, nothing else is left. -/
theorem State.Ends.rest_eq
    {s : State} (hs : s.Ends) (hend : s.current.1.isEof = true) :
    ∃ a, s.rest = [(.eof, a)] := by
  obtain ⟨xs, a, hxs, hinner⟩ := hs
  cases xs with
  | nil =>
      exact ⟨a, hxs⟩
  | cons x xs =>
      rw [State.current, hxs] at hend
      exact absurd hend (Bool.eq_false_iff.mp (hinner x List.mem_cons_self))

/-- A token in front that is not the end of the text has another one behind it. -/
theorem State.Ends.rest_eq_cons
    {s : State} (hs : s.Ends) (hfront : s.current.1.isEof = false) :
    ∃ t u r, s.rest = t :: u :: r ∧ s.current = t := by
  obtain ⟨xs, a, hxs, hinner⟩ := hs
  cases xs with
  | nil =>
      rw [State.current, hxs] at hfront
      cases hfront
  | cons x xs =>
      obtain ⟨u, r, hr⟩ := List.exists_cons_of_ne_nil (l := xs ++ [(.eof, a)]) (by simp)
      refine ⟨x, u, r, ?_, ?_⟩
      · rw [hxs, List.cons_append, hr]
      · rw [State.current, hxs]
        rfl

theorem State.Ends.advance
    {s : State} (hs : s.Ends) (hfront : s.current.1.isEof = false) :
    s.advance.Ends := by
  obtain ⟨t, u, r, hrest, -⟩ := hs.rest_eq_cons hfront
  rw [State.advance_eq hrest]
  exact hs.of_suffix (c := [t]) hrest (List.cons_ne_nil u r)

theorem State.Ends.isEof_of_length
    {s : State} (hs : s.Ends) (hlength : s.rest.length ≤ 1) :
    s.current.1.isEof = true := by
  obtain ⟨xs, a, hrest, -⟩ := hs
  cases xs with
  | nil =>
      rw [State.current, hrest]
      rfl
  | cons x xs =>
      rw [hrest, List.length_append, List.length_cons, List.length_singleton] at hlength
      omega

theorem State.Ends.whole
    {k : Nat} {s : State} (hs : s.Ends) (hwithin : s.Within k) :
    s.Whole := by
  obtain ⟨xs, a, hrest, -⟩ := hs
  exact ⟨⟨a, by rw [hrest, List.getLast?_concat]⟩, hwithin.fits⟩

theorem State.Ends.length_pos
    {s : State} (hs : s.Ends) :
    0 < s.rest.length := by
  obtain ⟨xs, a, hrest, -⟩ := hs
  rw [hrest, List.length_append]
  exact Nat.succ_pos _

theorem State.Ends.withDepth
    {s : State} {d : Nat} (hs : s.Ends) :
    ({ s with depth := d } : State).Ends := hs

namespace Spent

variable {k k' : Nat} {b b' : Prop} {l l₁ l₂ : Load} {i m n : Nat} {s s' s'' : State}

/-- Nothing is consumed on the way to the same place. -/
theorem stay
    (hs : s.Ends) (hrest : s'.rest = s.rest) (hgrows : s.Within k → s.Grows s') :
    Spent k b .nothing i i s s' := by
  refine ⟨[], hrest.symm, ?_, hgrows, .nil, trivial, .nil, fun _ t ht => ?_⟩
  · rw [State.Ends, hrest]
    exact hs
  · cases ht

theorem refl
    (hs : s.Ends) :
    Spent k b .nothing i i s s :=
  stay hs rfl fun _ => .refl s

/-- At the end of the text nothing can be consumed. -/
theorem at_end
    (h : Spent k b l i m s s') (hs : s.Ends) (hend : s.current.1.isEof = true) :
    s'.current.1.isEof = true ∧ l.moves = false := by
  obtain ⟨c, hrest, hends, -, -, hload, -⟩ := h
  obtain ⟨a, ha⟩ := hs.rest_eq hend
  cases c with
  | nil =>
      refine ⟨?_, ?_⟩
      · rw [State.current, ← List.nil_append s'.rest, ← hrest, ha]
        rfl
      · by_contra hmoves
        exact hload.ne_nil (Bool.of_not_eq_false hmoves) rfl
  | cons x c =>
      rw [ha, List.cons_append, List.cons.injEq] at hrest
      obtain ⟨xs, a, hxs, -⟩ := hends
      have hempty := hrest.2.symm
      rw [hxs] at hempty
      simp at hempty

/-- Less is left behind what was consumed. -/
theorem weight_le
    (h : Spent k b l i m s s') :
    tokensWeight s'.rest ≤ tokensWeight s.rest := by
  obtain ⟨c, hrest, -⟩ := h
  exact tokensWeight_le_of_suffix ⟨c, hrest.symm⟩

theorem weight_lt
    (h : Spent k b l i m s s') (hl : l.moves = true) :
    tokensWeight s'.rest < tokensWeight s.rest := by
  obtain ⟨c, hrest, -, -, -, hload, -⟩ := h
  refine tokensWeight_lt_of_suffix ⟨c, hrest.symm⟩ ?_
  rw [hrest, List.length_append]
  exact Nat.lt_add_of_pos_left (List.length_pos_of_ne_nil (hload.ne_nil hl))

theorem length_lt
    (h : Spent k b l i m s s') (hl : l.moves = true) :
    s'.rest.length < s.rest.length := by
  obtain ⟨c, hrest, -, -, -, hload, -⟩ := h
  rw [hrest, List.length_append]
  exact Nat.lt_add_of_pos_left (List.length_pos_of_ne_nil (hload.ne_nil hl))

theorem grows
    (h : Spent k b l i m s s') (hs : s.Within k) :
    s.Grows s' := by
  obtain ⟨-, -, -, hgrows, -⟩ := h
  exact hgrows hs

theorem within
    (h : Spent k b l i m s s') (hs : s.Within k) (hk : k ≤ k' ∨ l.moves = true ∧ k ≤ k' + 1) :
    s'.Within k' := by
  have hle := h.weight_le
  have hweight := hs.weight
  have hsize := (h.grows hs).size
  refine ⟨?_, ?_⟩
  · obtain ⟨c, hrest, -⟩ := h
    have hfits := hs.fits
    rw [hrest, List.length_append] at hfits
    omega
  · obtain hk | ⟨hl, hk⟩ := hk
    · omega
    · have hlt := h.weight_lt hl
      omega

theorem trans
    (h : Spent k b' l₁ i n s s') (h' : Spent k' b l₂ n m s' s'') (hb : b → b' ∨ l₂.moves = true)
    (hk : k ≤ k' ∨ l₁.moves = true ∧ k ≤ k' + 1)
    (hl : l = l₁ ∨ l = l₂) :
    Spent k b l i m s s'' := by
  have hwithin (hs : s.Within k) : s'.Within k' := h.within hs hk
  obtain ⟨c, hrest, -, hgrows, hcloses, hload, hsettled, hlast⟩ := h
  obtain ⟨c', hrest', hends, hgrows', hcloses', hload', hsettled', hlast'⟩ := h'
  refine ⟨c ++ c', ?_, hends, fun hs => (hgrows hs).trans (hgrows' (hwithin hs)),
    hcloses.append hcloses', ?_,
    hsettled.append hsettled' hrest', ?_⟩
  · rw [hrest, hrest', List.append_assoc]
  · obtain rfl | rfl := hl
    · exact hload.append_left
    · exact hload'.append_right
  · intro h t ht
    by_cases hc : c' = []
    · subst hc
      rw [List.append_nil] at ht
      refine hlast ((hb h).resolve_right fun hmoves => hload'.ne_nil hmoves rfl) t ht
    · rw [List.getLast?_append_of_ne_nil _ hc] at ht
      exact hlast' h t ht

/-- A token that is consumed. -/
theorem step
    {t : LocatedToken} (hs : s.Ends) (ht : s.current = t) (heof : t.1.isEof = false)
    (hquestion : t.1 ≠ .mark .question) (hcloses : Closes i m [t]) (hload : l.Holds [t])
    (hb : b → t.1.promises = false) :
    Spent k b l i m s s.advance := by
  obtain ⟨x, u, r, hrest, hx⟩ := hs.rest_eq_cons (ht ▸ heof)
  rw [ht] at hx
  subst hx
  rw [State.advance_eq hrest]
  refine ⟨[t], ?_, hs.of_suffix (c := [t]) hrest (List.cons_ne_nil u r),
    fun _ => ⟨rfl, Nat.le_refl _⟩, hcloses, hload, .token hquestion, fun h y hy => ?_⟩
  · exact hrest
  · rw [List.getLast?_singleton, Option.mem_some_iff] at hy
    exact hy ▸ hb h

/-- A question mark in front of two tokens that are consumed. -/
theorem question
    (h : Spent k b l i m s.advance s') (hs : s.Ends) (hfront : s.current.1 = .mark .question)
    (hlong : s'.rest.length + 2 ≤ s.advance.rest.length) :
    Spent (k + 1) b l i m s s' := by
  obtain ⟨t, u, r, hrest, ht⟩ := hs.rest_eq_cons (hfront ▸ rfl)
  obtain ⟨c, hrest', hends', hgrows, hcloses, hload, hsettled, hlast⟩ := h
  have hwithin (hs : s.Within (k + 1)) : s.advance.Within k := by
    rw [State.advance_eq hrest]
    refine ⟨Nat.le_trans ?_ hs.fits, Nat.le_of_lt_succ (Nat.lt_of_lt_of_le ?_ hs.weight)⟩
    · rw [hrest]
      exact Nat.le_succ _
    · exact tokensWeight_lt_of_suffix (hrest ▸ List.suffix_cons t _)
        (by rw [hrest]; exact Nat.lt_succ_self _)
  rw [State.advance_eq hrest] at hrest' hlong
  have hcount := congrArg List.length hrest'
  rw [List.length_append] at hcount
  have hopen : Closes i i [t] := by
    obtain ⟨t, a⟩ := t
    have hquestion : t = .mark .question := by rw [← hfront, ht]
    subst hquestion
    exact fun _ _ _ => rfl
  obtain ⟨ys, y, hys⟩ := (List.eq_nil_or_concat c).resolve_left (by
    rintro rfl
    rw [List.length_nil] at hcount
    omega)
  obtain ⟨zs, z, hzs⟩ := (List.eq_nil_or_concat ys).resolve_left (by
    rintro rfl
    rw [hys, List.concat_eq_append, List.length_append, List.length_nil,
      List.length_singleton] at hcount
    omega)
  rw [List.concat_eq_append] at hys hzs
  refine ⟨t :: c, ?_, hends', fun hs => (State.Grows.advance s).trans (hgrows (hwithin hs)),
    hopen.append hcloses, ?_, ⟨?_, ?_⟩, ?_⟩
  · rw [hrest, List.cons_append, ← hrest']
  · exact Load.Holds.append_right (c := [t]) hload
  · intro ts a hc
    rw [hys, ← List.cons_append] at hc
    obtain ⟨-, hy⟩ := List.append_inj' hc rfl
    exact hsettled.question ys a (by rw [hys, hy])
  · intro ts a b hc
    have hpair : c = zs ++ [z, y] := by
      rw [hys, hzs]
      simp
    rw [hpair, ← List.cons_append] at hc
    obtain ⟨-, hlast'⟩ := List.append_inj' hc rfl
    exact hsettled.super zs a b (by rw [hpair, hlast'])
  · intro hb x hx
    rw [hys, ← List.cons_append, List.getLast?_append_of_ne_nil _ (List.cons_ne_nil _ _)] at hx
    refine hlast hb x ?_
    rwa [hys, List.getLast?_append_of_ne_nil _ (List.cons_ne_nil _ _)]

theorem weaken
    (h : Spent k b l i m s s') (hk : k' ≤ k) (hb : b' → b) (hl : l₁ = l ∨ l₁ = .nothing ∨
      l₁ = .something ∧ l.moves = true) :
    Spent k' b' l₁ i m s s' := by
  obtain ⟨c, hrest, hends, hgrows, hcloses, hload, hsettled, hlast⟩ := h
  refine ⟨c, hrest, hends, fun hs => hgrows ⟨hs.fits, Nat.le_trans hs.weight hk⟩, hcloses, ?_,
    hsettled, fun h => hlast (hb h)⟩
  obtain rfl | rfl | ⟨rfl, hl⟩ := hl
  · exact hload
  · trivial
  · exact hload.ne_nil hl

theorem ends
    (h : Spent k b l i m s s') :
    s'.Ends := by
  obtain ⟨-, -, hends, -⟩ := h
  exact hends

end Spent

namespace Ahead

variable {j : Joint} {s t : State}

/-- Both readings begin at the start of the first text. -/
theorem start
    (j : Joint) :
    Ahead j ⟨j.text ++ [(.eof, j.stop)], none, 0, j.text.length + 1, 0⟩
      ⟨j.text ++ j.first :: j.behind, none, 0, (j.text ++ j.first :: j.behind).length, 0⟩ := by
  have hsizes : j.text.length + 1 ≤ (j.text ++ j.first :: j.behind).length := by simp
  exact .mk (List.nil_append j.text) (Nat.le_refl 0) (Nat.le_refl _) hsizes

theorem ends
    (hj : j.Clean) (h : Ahead j s t) :
    s.Ends := by
  cases h with
  | mk htext _ _ _ =>
      exact ⟨_, _, rfl, fun x hx => hj.inner x (htext ▸ List.mem_append_right _ hx)⟩

/-- Within the first text both readings have the same token in front. -/
theorem current_eq
    (h : Ahead j s t) (hfront : s.current.1.isEof = false) :
    t.current = s.current := by
  cases h with
  | @mk done xs d d' n n' r r' _ _ _ _ =>
      cases xs with
      | nil =>
          cases hfront
      | cons x xs =>
          rfl

/-- Within the first text the token in front is one of its own. -/
theorem current_mem
    (h : Ahead j s t) (hfront : s.current.1.isEof = false) :
    s.current ∈ j.text := by
  cases h with
  | @mk done xs d d' n n' r r' htext _ _ _ =>
      cases xs with
      | nil =>
          cases hfront
      | cons x xs =>
          exact htext ▸ List.mem_append_right _ List.mem_cons_self

/-- At the end of the first text the second one begins. -/
theorem seam
    (hj : j.Clean) (h : Ahead j s t) (hend : s.current.1.isEof = true) :
    s.rest = [(.eof, j.stop)] ∧ t.rest = j.first :: j.behind ∧
      s.last = j.text.getLast?.map Prod.snd ∧ t.last = j.text.getLast?.map Prod.snd := by
  cases h with
  | @mk done xs d d' n n' r r' htext _ _ _ =>
      cases xs with
      | nil =>
          rw [List.append_nil] at htext
          subst htext
          exact ⟨rfl, rfl, rfl, rfl⟩
      | cons x xs =>
          have hinner := hj.inner x (htext ▸ List.mem_append_right _ List.mem_cons_self)
          exact absurd hend (Bool.eq_false_iff.mp hinner)

/-- Where nothing but the end follows, both readings see the same. -/
theorem same
    (h : Ahead j s t) (hseam : j.first = (.eof, j.stop) ∧ j.behind = []) :
    t.rest = s.rest ∧ t.last = s.last := by
  cases h with
  | mk _ _ _ _ =>
      rw [hseam.1, hseam.2]
      exact ⟨rfl, rfl⟩

theorem last_eq
    (h : Ahead j s t) :
    t.last = s.last := by
  cases h
  rfl

theorem size_le
    (h : Ahead j s t) :
    s.size ≤ t.size := by
  cases h with
  | mk _ _ _ hsize =>
      exact hsize

theorem depth_le
    (h : Ahead j s t) :
    t.depth ≤ s.depth := by
  cases h with
  | mk _ hdepth _ _ =>
      exact hdepth

theorem within
    {k : Nat} (h : Ahead j s t) (hweight : tokensWeight s.rest ≤ k) :
    s.Within k := by
  refine ⟨?_, hweight⟩
  cases h with
  | mk _ _ hfits _ =>
      simpa using hfits

theorem advance
    (h : Ahead j s t) (hfront : s.current.1.isEof = false) :
    Ahead j s.advance t.advance := by
  cases h with
  | @mk done xs d d' n n' r r' htext hdepth hfits hsize =>
      cases xs with
      | nil =>
          cases hfront
      | cons x xs =>
          have hlast : (done ++ [x]).getLast?.map Prod.snd = some x.2 := by simp
          have htext' : (done ++ [x]) ++ xs = j.text := by simpa using htext
          have hnext :
              Ahead j ⟨xs ++ [(.eof, j.stop)], (done ++ [x]).getLast?.map Prod.snd, d, n, r⟩
              ⟨xs ++ j.first :: j.behind, (done ++ [x]).getLast?.map Prod.snd, d', n', r'⟩ :=
            .mk htext' hdepth (Nat.le_of_succ_le hfits) hsize
          rw [hlast] at hnext
          cases xs <;> exact hnext

theorem level
    {d d' r r' : Nat} (h : Ahead j s t) (hd : d' ≤ d) :
    Ahead j { s with depth := d, refused := r } { t with depth := d', refused := r' } := by
  cases h with
  | mk htext _ hfits hsize =>
      exact .mk htext hd hfits hsize

/-- The first reading may have fewer levels above it. -/
theorem alone
    {d d' : Nat} (h : Ahead j s t) (hd : d' ≤ d) :
    Ahead j.alone { s with depth := d } { s with depth := d' } := by
  cases h with
  | mk htext _ hfits _ =>
      exact .mk htext hd hfits (Nat.le_refl _)

/-- The first text does not end in a token behind which there is more to come. -/
theorem promises_eq_false
    {c : List LocatedToken} {x e : LocatedToken} (hfresh : j.Fresh) (h : Ahead j s t)
    (hrest : s.rest = c ++ [x, e]) :
    x.1.promises = false := by
  cases h with
  | @mk done xs d d' n n' r r' htext _ _ _ =>
      have hxs : xs = c ++ [x] := by
        rw [show c ++ [x, e] = (c ++ [x]) ++ [e] by simp] at hrest
        exact (List.append_inj' hrest rfl).1
      refine hfresh.complete x ?_
      rw [← htext, hxs, ← List.append_assoc]
      exact List.getLast?_concat

/-- The second text begins on another line. -/
theorem joinsLine_seam
    (hj : j.Clean) (hfresh : j.Fresh) (h : Ahead j s t) (hend : s.current.1.isEof = true) :
    t.joinsLine = false := by
  obtain ⟨-, hrest, -, hlast⟩ := h.seam hj hend
  obtain ⟨ts, x, hx⟩ := (List.eq_nil_or_concat j.text).resolve_left hj.ne_nil
  have hlater := hfresh.later x (by simp [hx])
  rw [State.joinsLine, hlast, hx, State.current, hrest]
  simpa using Nat.ne_of_gt hlater

/-- After an attempt reading goes on from where it began. -/
theorem back
    {s' t' : State} (h : Ahead j s t) (hdepth : t'.depth ≤ s'.depth) (hs : s'.size = s.size)
    (hsize : s'.size ≤ t'.size) :
    Ahead j { s' with rest := s.rest, last := s.last }
      { t' with rest := t.rest, last := t.last } := by
  cases h with
  | mk htext _ hfits _ =>
      exact .mk htext hdepth (hs ▸ hfits) hsize

/-- A mark that cannot begin the second text is in front of both readings or of none. -/
theorem isMark_eq
    {w : Mark} (hj : j.Clean) (h : Ahead j s t) (hw : (Token.mark w).opens = false) :
    t.current.1.isMark w = s.current.1.isMark w := by
  by_cases hfront : s.current.1.isEof = true
  · obtain hsame | hfresh := hj.seam
    · rw [State.current, (h.same hsame).1, State.current]
    · obtain ⟨-, hrest, -⟩ := h.seam hj hfront
      rw [Token.isEof_iff.mp hfront, State.current, hrest]
      refine Bool.eq_false_iff.mpr fun hmark => ?_
      have hopens := hfresh.opens
      rw [List.headD_cons] at hmark
      rw [Token.isMark_iff.mp hmark, hw] at hopens
      cases hopens
  · rw [h.current_eq (Bool.eq_false_iff.mpr hfront)]

/-- The second token of what is left. -/
theorem second
    (h : Ahead j s t) (hfront : s.current.1.isEof = false) :
    (∃ u, s.rest[1]? = some u ∧ t.rest[1]? = some u) ∨
      s.rest[1]? = some (.eof, j.stop) ∧ t.rest[1]? = some j.first ∧ s.rest.length = 2 := by
  cases h with
  | @mk done xs d d' n n' r r' htext _ _ _ =>
      cases xs with
      | nil =>
          cases hfront
      | cons x xs =>
          cases xs with
          | nil =>
              exact .inr ⟨rfl, rfl, rfl⟩
          | cons y xs =>
              exact .inl ⟨y, rfl, rfl⟩

/-- Where an import ends the first text, it ends with the word and a name. -/
theorem import_last
    {name : String} (hj : j.Clean) (h : Ahead j s t)
    (hword : s.current.1 = .keyword .importKw) (hname : s.advance.current.1 = .identifier name)
    (hend : s.advance.advance.current.1.isEof = true) :
    ∃ a b name ts, j.text = ts ++ [(.keyword .importKw, a), (.identifier name, b)] := by
  cases h with
  | @mk done xs d d' n n' r r' htext _ _ _ =>
      rcases xs with _ | ⟨⟨x, a⟩, _ | ⟨⟨y, b⟩, _ | ⟨z, xs⟩⟩⟩
      · cases hword
      · cases hname
      · cases hword
        cases hname
        exact ⟨a, b, name, done, htext.symm⟩
      · have hinner := hj.inner z (htext ▸ List.mem_append_right _
          (List.mem_cons_of_mem _ (List.mem_cons_of_mem _ List.mem_cons_self)))
        exact absurd hend (Bool.eq_false_iff.mp hinner)

end Ahead

end Grammar
end ScriptEngine
