import ScriptEngine.Proofs.Seams.Persistence

/-!
# Attempts where one text meets the next

A reader may try to read types and go back when it fails, so it matters that the attempt fails with
the second text behind as well, and with as many levels left open.
-/

namespace ScriptEngine
namespace Grammar

/-- The word that closes a block is still to come. -/
def State.HasEnd (s : State) : Prop := ∃ t ∈ s.rest, t.1 = .keyword .endKw

/-- What two readings leave as it is: the number of tokens, and that the second one has no more
levels above it. -/
structure Kept (s t s' t' : State) : Prop where
  depth : t'.depth ≤ s'.depth
  left : s.Grows s'
  right : t'.size = t.size

/-- Both readings succeed in the same way or both fail, unless a reader was refused. -/
inductive Mirrored (j : Joint) (G : Prop) (s t : State) {α : Type} :
    EStateM.Result ParseError State α → EStateM.Result ParseError State α → Prop
  | ok {a : α} {s' t' : State} (hst : Ahead j s' t') (hkept : Kept s t s' t')
      (hend : G → s'.HasEnd) : Mirrored j G s t (.ok a s') (.ok a t')
  | error {e f : ParseError} {s' t' : State} (hkept : Kept s t s' t') :
      Mirrored j G s t (.error e s') (.error f t')
  | refused {x y : EStateM.Result ParseError State α} (h : s.refused < (endState x).refused) :
      Mirrored j G s t x y

/-- A reader whose failures persist as well as its successes.  It may rely on a block that is closed
within the first text (`G`), or that it does not begin at the end of it (`c`). -/
structure Mirrors (G c : Prop) (F : Token → Prop) {α : Type} (p : Parse α) : Prop where
  grows : ∀ s : State, s.Grows (endState (p s))
  mirrors : ∀ ⦃j : Joint⦄, j.Clean → ∀ ⦃s t : State⦄, Ahead j s t → F s.current.1 →
    (G → s.HasEnd) → (c → j.Fresh → s.current.1.isEof = false) → Mirrored j G s t (p s) (p t)

variable {α β : Type} {G c : Prop} {F : Token → Prop} {j : Joint} {s t s' t' : State}

theorem Kept.refl
    (h : Ahead j s t) :
    Kept s t s t :=
  ⟨h.depth_le, .refl s, rfl⟩

theorem Kept.size_le
    (h : Kept s t s' t') (hst : Ahead j s t) :
    s'.size ≤ t'.size := by
  rw [h.left.size, h.right]
  exact hst.size_le

theorem Kept.trans
    {s'' t'' : State} (h : Kept s t s' t') (h' : Kept s' t' s'' t'') :
    Kept s t s'' t'' :=
  ⟨h'.depth, h.left.trans h'.left, h'.right.trans h.right⟩

theorem Mirrored.after
    {x y : EStateM.Result ParseError State α} (hkept : Kept s t s' t')
    (h : Mirrored j G s' t' x y) :
    Mirrored j G s t x y := by
  cases h with
  | ok hst hkept' hend =>
      exact .ok hst (hkept.trans hkept') hend
  | error hkept' =>
      exact .error (hkept.trans hkept')
  | refused hlt =>
      exact .refused (Nat.lt_of_le_of_lt hkept.left.refused hlt)

/-- Where a block is still to be closed, or the second text does not matter, both readings see the
same token in front. -/
theorem Ahead.current_of_inside
    (hj : j.Clean) (h : Ahead j s t) (hinside : j.Fresh → s.current.1.isEof = false) :
    t.current = s.current := by
  obtain hsame | hfresh := hj.seam
  · rw [State.current, (h.same hsame).1, State.current]
  · exact h.current_eq (hinside hfresh)

/-- The first text does not end in a token behind which there is more to come. -/
theorem Ahead.advance_inside
    (hj : j.Clean) (hfresh : j.Fresh) (h : Ahead j s t) (hfront : s.current.1.isEof = false)
    (hpromises : s.current.1.promises = true) :
    s.advance.current.1.isEof = false := by
  refine Bool.eq_false_iff.mpr fun hend => ?_
  obtain ⟨x, u, r, hrest, hx⟩ := (h.ends hj).rest_eq_cons hfront
  obtain ⟨hnext, -⟩ := (h.advance hfront).seam hj hend
  rw [State.advance_eq hrest] at hnext
  change u :: r = [_] at hnext
  rw [hnext] at hrest
  have hnot := h.promises_eq_false hfresh (c := []) hrest
  rw [hx, hnot] at hpromises
  cases hpromises

theorem Ahead.inside_of_hasEnd
    (hj : j.Clean) (h : Ahead j s t) (hend : s.HasEnd) :
    s.current.1.isEof = false := by
  refine Bool.eq_false_iff.mpr fun hfront => ?_
  obtain ⟨hrest, -⟩ := h.seam hj hfront
  obtain ⟨x, hx, hword⟩ := hend
  rw [hrest, List.mem_singleton] at hx
  subst hx
  cases hword

/-- Where a question mark is the last token of the first text, it ends with one. -/
theorem Ahead.question_last
    (hj : j.Clean) (h : Ahead j s t) (hfront : s.current.1 = .mark .question)
    (hend : s.advance.current.1.isEof = true) :
    ∃ a ts, j.text = ts ++ [(.mark .question, a)] := by
  cases h with
  | @mk done xs d d' n n' r r' htext _ _ _ =>
      cases xs with
      | nil =>
          cases hfront
      | cons x xs =>
          cases xs with
          | nil =>
              obtain ⟨x, a⟩ := x
              cases hfront
              exact ⟨a, done, htext.symm⟩
          | cons y xs =>
              have hinner := hj.inner y (htext ▸ List.mem_append_right _
                (List.mem_cons_of_mem _ List.mem_cons_self))
              exact absurd hend (Bool.eq_false_iff.mp hinner)

/-- The first text does not end with the word of a bound that is cut off. -/
theorem Ahead.super_inside
    (hj : j.Clean) (hfresh : j.Fresh) (h : Ahead j s t) (hfront : s.current.1 = .mark .question)
    (hnext : s.advance.current.1 = .keyword .superKw) :
    s.advance.advance.current.1.isEof = false := by
  cases h with
  | @mk done xs d d' n n' r r' htext _ _ _ =>
      rcases xs with _ | ⟨⟨x, a⟩, _ | ⟨⟨y, b⟩, _ | ⟨z, xs⟩⟩⟩
      · cases hfront
      · cases hnext
      · cases hfront
        cases hnext
        exact absurd ⟨a, b, done, htext.symm⟩ hfresh.unbound
      · exact hj.inner z (htext ▸ List.mem_append_right _
          (List.mem_cons_of_mem _ (List.mem_cons_of_mem _ List.mem_cons_self)))

theorem State.advance_refused
    (s : State) :
    s.advance.refused = s.refused := by
  unfold State.advance
  split <;> rfl

theorem Kept.advance
    (h : Ahead j s.advance t.advance) :
    Kept s t s.advance t.advance :=
  ⟨h.depth_le, .advance s, (State.Grows.advance t).size⟩

theorem State.HasEnd.advance
    (h : s.HasEnd) (hs : s.Ends) (hfront : s.current.1.isEof = false)
    (hword : s.current.1 ≠ .keyword .endKw) :
    s.advance.HasEnd := by
  obtain ⟨x, u, r, hrest, hx⟩ := hs.rest_eq_cons hfront
  obtain ⟨y, hy, hy'⟩ := h
  rw [hrest] at hy
  refine ⟨y, ?_, hy'⟩
  rw [State.advance_eq hrest]
  refine (List.mem_cons.mp hy).resolve_left ?_
  rintro rfl
  exact hword (hx ▸ hy')

theorem endState_bind
    (p : Parse α) (f : α → Parse β) (s : State) :
    endState ((p >>= f) s) = match p s with
      | .ok a s' => endState (f a s')
      | .error _ s' => s' := by
  show endState (EStateM.bind p f s) = _
  unfold EStateM.bind
  cases p s <;> rfl

namespace Mirrors

variable {p : Parse α} {f : α → Parse β}

theorem pure
    (a : α) :
    Mirrors G c F (Pure.pure a) where
  grows := .refl
  mirrors _ _ _ _ hst _ hG _ := .ok hst (.refl hst) hG

theorem fails
    (h : ∀ s, ∃ e, p s = .error e s) :
    Mirrors G c F p where
  grows s := by
    obtain ⟨e, hs⟩ := h s
    rw [hs]
    exact .refl s
  mirrors j _ s t hst _ _ _ := by
    obtain ⟨e, hs⟩ := h s
    obtain ⟨e', ht⟩ := h t
    rw [hs, ht]
    exact .error (.refl hst)

theorem failExpecting
    (expected : List Expected) :
    Mirrors G c F (Grammar.failExpecting expected : Parse α) :=
  fails fun _ => ⟨_, rfl⟩

theorem grows_bind
    {c' : Prop} {F' : Token → Prop} (hp : Mirrors G c F p) (hf : ∀ a, Mirrors G c' F' (f a))
    (s : State) :
    s.Grows (endState ((p >>= f) s)) := by
  have hfirst := hp.grows s
  rw [endState_bind]
  cases hps : p s with
  | ok a s' =>
      rw [hps] at hfirst
      exact hfirst.trans ((hf a).grows s')
  | error e s' =>
      rw [hps] at hfirst
      exact hfirst

/-- The second part may rely on not beginning at the end of the first text, when the first part does
not come there. -/
theorem sequence
    {c' : Prop} (hp : Mirrors G c F p) (hf : ∀ a, Mirrors G c' anything (f a))
    (hinside : c' → ∀ {j : Joint}, j.Clean → j.Fresh → ∀ {s t s' t' : State} {a : α},
      Ahead j s t → Ahead j s' t' → F s.current.1 → p s = .ok a s' → s'.current.1.isEof = false) :
    Mirrors G c F (p >>= f) := by
  refine ⟨grows_bind hp hf, fun j hj s t hst hF hG hc => ?_⟩
  have hfirst := hp.mirrors hj hst hF hG hc
  cases hps : p s with
  | error e s' =>
      rw [hps] at hfirst
      show Mirrored j G s t (EStateM.bind p f s) (EStateM.bind p f t)
      unfold EStateM.bind
      rw [hps]
      generalize p t = y at hfirst
      cases hfirst with
      | error hkept =>
          exact .error hkept
      | refused hlt =>
          exact .refused hlt
  | ok a s' =>
      rw [hps] at hfirst
      rw [ok_bind hps]
      generalize hpt : p t = y at hfirst
      cases hfirst with
      | @ok _ _ t' hst' hkept hG' =>
          rw [ok_bind hpt]
          exact .after hkept ((hf a).mirrors hj hst' trivial hG' fun hc' hfresh =>
            hinside hc' hj hfresh hst hst' hF hps)
      | refused hlt =>
          exact .refused (Nat.lt_of_lt_of_le hlt ((hf a).grows s').refused)

theorem bind
    (hp : Mirrors G c F p) (hf : ∀ a, Mirrors G False anything (f a)) :
    Mirrors G c F (p >>= f) :=
  hp.sequence hf fun h => h.elim

theorem map
    {f : α → β} (hp : Mirrors G c F p) :
    Mirrors G c F (f <$> p) := by
  rw [map_eq_pure_bind]
  exact hp.bind fun a => pure (f a)

theorem weaken
    {c' : Prop} {F' : Token → Prop} (hp : Mirrors G c F p) (hc : c → c') (hF : ∀ t, F' t → F t) :
    Mirrors G c' F' p where
  grows := hp.grows
  mirrors _ hj _ _ hst hF' hG hc' := hp.mirrors hj hst (hF _ hF') hG fun h => hc' (hc h)

/-- A look at the state that sees the same in both readings. -/
theorem look
    {v : State → α} (hp : ∀ s, p s = .ok (v s) s)
    (hv : ∀ {j : Joint} {s t : State}, j.Clean → Ahead j s t → v t = v s) :
    Mirrors G c F p where
  grows s := by
    rw [hp]
    exact .refl s
  mirrors j hj s t hst _ hG _ := by
    rw [hp, hp, hv hj hst]
    exact .ok hst (.refl hst) hG

/-! ### The token in front -/

/-- A part read where the token in front is the one asked for, and another elsewhere. -/
theorem ifAsked
    {u : Token} {ask : Parse Bool} {x y : Parse β} (hyes : ∀ s : State, s.current.1 = u →
      ask s = .ok true s) (hno : ∀ s : State, s.current.1 ≠ u → ask s = .ok false s)
    (hu : u.isEof = false) (hx : Mirrors G c (· = u) x) (hy : Mirrors G c F y)
    (hseam : ¬ G → ¬ c → u.opens = false) :
    Mirrors G c F (do if ← ask then x else y) := by
  constructor
  · intro s
    by_cases hfront : s.current.1 = u
    · rw [ok_bind (hyes s hfront)]
      exact hx.grows s
    · rw [ok_bind (hno s hfront)]
      exact hy.grows s
  · intro j hj s t hst hF hG hc
    by_cases hinside : j.Fresh → s.current.1.isEof = false
    · have ht := hst.current_of_inside hj hinside
      by_cases hfront : s.current.1 = u
      · rw [ok_bind (hyes s hfront), ok_bind (hyes t (ht ▸ hfront))]
        exact hx.mirrors hj hst hfront hG hc
      · rw [ok_bind (hno s hfront), ok_bind (hno t (ht ▸ hfront))]
        exact hy.mirrors hj hst hF hG hc
    · obtain ⟨hfresh, hend⟩ := Classical.not_imp.mp hinside
      have heof := Bool.of_not_eq_false hend
      obtain ⟨hrest, hrest', -⟩ := hst.seam hj heof
      have hopens := hseam (fun h => hend (hst.inside_of_hasEnd hj (hG h)))
        (fun h => hend (hc h hfresh))
      have hs : s.current.1 ≠ u := by
        rintro rfl
        exact hend hu
      have ht : t.current.1 ≠ u := by
        rintro rfl
        have hfirst := hfresh.opens
        rw [State.current, hrest'] at hopens
        exact absurd hfirst (Bool.eq_false_iff.mp hopens)
      rw [ok_bind (hno s hs), ok_bind (hno t ht)]
      exact hy.mirrors hj hst hF hG hc

/-- Eating a token is consuming it where it is there. -/
theorem ifEaten
    {u : Token} {ate : Parse Bool} {x y : Parse β} (hate : Persists.Eats u ate)
    (hu : u.isEof = false) (hx : Mirrors G c (· = u) (do Grammar.advance; x))
    (hy : Mirrors G c F y) (hseam : ¬ G → ¬ c → u.opens = false) :
    Mirrors G c F (do if ← ate then x else y) := by
  obtain ⟨ask, hyes, hno, hsplit⟩ := hate.split x y
  rw [hsplit]
  exact ifAsked hyes hno hu hx hy hseam

theorem ifMark
    {w : Mark} {x y : Parse β} (hx : Mirrors G c (· = .mark w) x) (hy : Mirrors G c F y)
    (hseam : ¬ G → ¬ c → (Token.mark w).opens = false) :
    Mirrors G c F (do if ← Grammar.atMark w then x else y) :=
  ifAsked (Persists.atMark_yes w) (Persists.atMark_no w) rfl hx hy hseam

/-- The token in front, where it does not matter what follows the first text. -/
theorem front
    {f : Token → Parse β} (hf : ∀ t, Mirrors G c (· = t) (f t)) (hsafe : G ∨ c) :
    Mirrors G c F (Grammar.current >>= f) := by
  have hcurrent (s : State) : Grammar.current s = .ok s.current.1 s := rfl
  constructor
  · intro s
    rw [ok_bind (hcurrent s)]
    exact (hf _).grows s
  · intro j hj s t hst hF hG hc
    have hinside (hfresh : j.Fresh) : s.current.1.isEof = false := by
      obtain h | h := hsafe
      · exact hst.inside_of_hasEnd hj (hG h)
      · exact hc h hfresh
    rw [ok_bind (hcurrent s), ok_bind (hcurrent t), hst.current_of_inside hj hinside]
    exact (hf _).mirrors hj hst rfl hG hc

theorem advance
    {t : Token} (ht : t.isEof = false) (hend : t ≠ .keyword .endKw) :
    Mirrors G c (· = t) Grammar.advance := by
  constructor
  · intro s
    exact .advance s
  · intro j hj s t' hst hF hG _
    have hfront : s.current.1.isEof = false := hF ▸ ht
    have hnext := hst.advance hfront
    refine .ok hnext (.advance hnext) fun h => ?_
    exact (hG h).advance (hst.ends hj) hfront (hF ▸ hend)

section Steps

variable {t : Token} {x : Unit → Parse β}

/-- A step over the token in front. -/
theorem step
    (ht : t.isEof = false) (hend : t ≠ .keyword .endKw) (hx : Mirrors G False anything (x ())) :
    Mirrors G c (· = t) (Grammar.advance >>= x) :=
  (advance ht hend).bind fun _ => hx

/-- A step over a token behind which there is more to come. -/
theorem stepOn
    (ht : t.isEof = false) (hend : t ≠ .keyword .endKw) (hpromises : t.promises = true)
    (hx : Mirrors G True anything (x ())) :
    Mirrors G c (· = t) (Grammar.advance >>= x) := by
  refine (advance ht hend).sequence (fun _ => hx) fun _ j hj hfresh s t' s' t'' a hst _ hF h => ?_
  cases h
  exact hst.advance_inside hj hfresh (hF ▸ ht) (hF ▸ hpromises)

end Steps

/-! ### Going deeper, going on -/

theorem nested
    (hp : Mirrors G c F p) :
    Mirrors G c F (Grammar.nested p) := by
  constructor
  · intro s
    rw [nested_apply]
    split
    · exact ⟨rfl, Nat.le_succ _⟩
    · obtain ⟨hsize, hrefused⟩ := hp.grows { s with depth := s.depth + 1 }
      generalize p { s with depth := s.depth + 1 } = x at hsize hrefused
      cases x <;> exact ⟨hsize, hrefused⟩
  · intro j hj s t hst hF hG hc
    have hdepth := hst.depth_le
    rw [nested_apply, nested_apply]
    by_cases hlimit : maxDepth < s.depth + 1
    · rw [if_pos hlimit]
      exact .refused (Nat.lt_succ_self _)
    · rw [if_neg hlimit, if_neg (by omega)]
      have hlevel : Ahead j { s with depth := s.depth + 1 } { t with depth := t.depth + 1 } :=
        hst.level (Nat.succ_le_succ hdepth)
      have hinner := hp.mirrors hj hlevel hF hG hc
      generalize p _ = x at hinner
      generalize p _ = y at hinner
      cases hinner with
      | ok hst' hkept hend =>
          have hle := Nat.sub_le_sub_right hkept.depth 1
          exact .ok (hst'.level hle) ⟨hle, ⟨hkept.left.size, hkept.left.refused⟩, hkept.right⟩ hend
      | error hkept =>
          have hle := Nat.sub_le_sub_right hkept.depth 1
          exact .error ⟨hle, ⟨hkept.left.size, hkept.left.refused⟩, hkept.right⟩
      | refused hlt =>
          cases x <;> exact .refused hlt

/-- After an attempt both readings go on from where they were. -/
theorem tryRead
    {p : Parse (Option α)} (hp : Mirrors G c F p) :
    Mirrors G c F (Grammar.tryRead p) := by
  constructor
  · intro s
    obtain ⟨hsize, hrefused⟩ := hp.grows s
    rw [tryRead_apply]
    generalize p s = x at hsize hrefused
    obtain ⟨a, s'⟩ | ⟨e, s'⟩ := x
    · cases a <;> exact ⟨hsize, hrefused⟩
    · exact ⟨hsize, hrefused⟩
  · intro j hj s t hst hF hG hc
    have hinner := hp.mirrors hj hst hF hG hc
    rw [tryRead_apply, tryRead_apply]
    generalize p s = x at hinner
    generalize p t = y at hinner
    have hback {s' t' : State} (hkept : Kept s t s' t') :
        Mirrored j G s t (.ok (none : Option α) { s' with rest := s.rest, last := s.last })
          (.ok none { t' with rest := t.rest, last := t.last }) :=
      .ok (hst.back hkept.depth hkept.left.size (hkept.size_le hst))
        ⟨hkept.depth, ⟨hkept.left.size, hkept.left.refused⟩, hkept.right⟩ hG
    cases hinner with
    | @ok a s' t' hst' hkept hend =>
        cases a with
        | none =>
            exact hback hkept
        | some a =>
            exact .ok hst' hkept hend
    | error hkept =>
        exact hback hkept
    | refused hlt =>
        obtain ⟨a, s'⟩ | ⟨e, s'⟩ := x
        · cases a <;> exact .refused hlt
        · exact .refused hlt

/-- A repetition that consumes a token in every round but the last never comes to its bound. -/
theorem repeatRead
    {round : α → Parse (Round α β)} (hround : ∀ a, Mirrors G c anything (round a))
    (hmoves : ∀ s a a' s', s.Ends → round a s = .ok (.again a') s' →
      s'.Ends ∧ s'.rest.length < s.rest.length)
    (hagain : c → ∀ {j : Joint}, j.Clean → j.Fresh → ∀ {s t s' t' : State} {a a' : α},
      Ahead j s t → Ahead j s' t' → round a s = .ok (.again a') s' → s'.current.1.isEof = false)
    (a : α) :
    Mirrors G c anything (Grammar.repeatRead round a) := by
  have hgrows (n : Nat) (a : α) (s : State) :
      s.Grows (endState (repeatBounded round n a s)) := by
    induction n generalizing a s with
    | zero =>
        exact .refl s
    | succ n ih =>
        have hfirst := (hround a).grows s
        rw [repeatBounded, endState_bind]
        cases hr : round a s with
        | error e s' =>
            rw [hr] at hfirst
            exact hfirst
        | ok r s' =>
            rw [hr] at hfirst
            cases r with
            | again a' =>
                exact hfirst.trans (ih a' s')
            | done y =>
                exact hfirst
  have hbounded {j : Joint} (hj : j.Clean) (n n' : Nat) {a : α} {s t : State} (hle : n ≤ n')
      (hst : Ahead j s t) (hlength : s.rest.length < n) (hG : G → s.HasEnd)
      (hc : c → j.Fresh → s.current.1.isEof = false) :
      Mirrored j G s t (repeatBounded round n a s) (repeatBounded round n' a t) := by
    induction n generalizing n' a s t with
    | zero =>
        exact absurd hlength (Nat.not_lt_zero _)
    | succ n ih =>
        obtain ⟨n', rfl⟩ := Nat.exists_eq_add_of_le' (Nat.lt_of_lt_of_le n.succ_pos hle)
        have hfirst := (hround a).mirrors hj hst trivial hG hc
        show Mirrored j G s t (EStateM.bind (round a) _ s) (EStateM.bind (round a) _ t)
        unfold EStateM.bind
        cases hs : round a s with
        | error e s' =>
            rw [hs] at hfirst
            generalize round a t = y at hfirst
            cases hfirst with
            | error hkept =>
                exact .error hkept
            | refused hlt =>
                exact .refused hlt
        | ok r s' =>
            rw [hs] at hfirst
            generalize ht : round a t = y at hfirst
            cases hfirst with
            | refused hlt =>
                cases r with
                | again a' =>
                    exact .refused (Nat.lt_of_lt_of_le hlt (hgrows n a' s').refused)
                | done y' =>
                    exact .refused hlt
            | @ok _ _ t' hst' hkept hG' =>
                cases r with
                | done y' =>
                    exact .ok hst' hkept hG'
                | again a' =>
                    obtain ⟨-, hlt⟩ := hmoves s a a' s' (hst.ends hj) hs
                    exact .after hkept (ih n' (Nat.le_of_succ_le_succ hle) hst' (by omega) hG'
                      fun hc' hfresh => hagain hc' hj hfresh hst hst' hs)
  constructor
  · intro s
    exact hgrows _ a s
  · intro j hj s t hst _ hG hc
    have hsizes : s.rest.length ≤ s.size ∧ s.size ≤ t.size := by
      cases hst with
      | mk _ _ hfits hsize =>
          exact ⟨by simpa using hfits, hsize⟩
    exact hbounded hj _ _ (Nat.succ_le_succ hsizes.2) hst (Nat.lt_succ_of_le hsizes.1) hG hc

end Mirrors

/-! ### Types -/

/-- Reads a wildcard, which stands in front, with its bound. -/
def wildcard (g : Reader) : Parse TypeExpr := do
  advance
  if ← eatWord .extendsKw then return .boundedAbove (← g.type)
  else if ← eatWord .superKw then return .boundedBelow (← g.type)
  else return .wildcard

section Wildcards

variable {g : Reader} {s : State}

theorem wildcard_above
    (h : s.advance.current.1 = .keyword .extendsKw) :
    wildcard g s = (TypeExpr.boundedAbove <$> g.type) s.advance.advance := by
  rw [wildcard, ok_bind (show advance s = .ok () s.advance from rfl),
    ok_bind ((Persists.Eats.word _).yes _ h), map_eq_pure_bind]
  rfl

theorem wildcard_below
    (h : s.advance.current.1 = .keyword .superKw) :
    wildcard g s = (TypeExpr.boundedBelow <$> g.type) s.advance.advance := by
  rw [wildcard, ok_bind (show advance s = .ok () s.advance from rfl),
    ok_bind ((Persists.Eats.word .extendsKw).no _ (by rw [h]; exact fun h => by cases h)),
    if_neg Bool.false_ne_true, ok_bind ((Persists.Eats.word _).yes _ h), map_eq_pure_bind]
  rfl

theorem wildcard_free
    (habove : s.advance.current.1 ≠ .keyword .extendsKw)
    (hbelow : s.advance.current.1 ≠ .keyword .superKw) :
    wildcard g s = .ok .wildcard s.advance := by
  rw [wildcard, ok_bind (show advance s = .ok () s.advance from rfl),
    ok_bind ((Persists.Eats.word .extendsKw).no _ habove), if_neg Bool.false_ne_true,
    ok_bind ((Persists.Eats.word .superKw).no _ hbelow)]
  rfl

end Wildcards

/-- Type arguments belong to a call that goes on behind them on their line. -/
theorem callTypeArgs?_check
    (args : List TypeExpr) (s : State) :
    (do
      if ← atMark .leftParen then
        if ← continuesLine then return some args
      return none : Parse (Option (List TypeExpr))) s =
      .ok (if s.current.1.isMark .leftParen && s.joinsLine then some args else none) s := by
  rw [ok_bind (show atMark .leftParen s = .ok (s.current.1.isMark .leftParen) s from rfl)]
  cases s.current.1.isMark .leftParen with
  | false =>
      rfl
  | true =>
      rw [if_pos rfl, ok_bind (show continuesLine s = .ok s.joinsLine s from rfl)]
      cases s.joinsLine <;> rfl

/-- What the readers that call each other are asked for, up to a weight. -/
structure Reader.Persists (k : Nat) (g : Reader) : Prop where
  expression : ∀ {b : Prop} {i : Nat}, Grammar.Persists anything k b .something i i g.expression
  operators : ∀ {b : Prop} {i : Nat} (level : Nat),
    Grammar.Persists anything k b .something i i (g.operators level)
  unary : ∀ {b : Prop} {i : Nat}, Grammar.Persists anything k b .something i i g.unary
  statement : ∀ {b : Prop} {i : Nat}, Grammar.Persists anything k b .something i i g.statement
  statementHere : ∀ {b : Prop} {i : Nat},
    Grammar.Persists anything k b .something i i g.statementHere
  type : ∀ {b : Prop} {i : Nat}, Grammar.Persists anything k b .something i i g.type
  typeMirrors : ∀ {G : Prop}, Mirrors G True anything g.type
  /-- Where no expression can begin, none is read. -/
  bars : ∀ ⦃s : State⦄, s.current.1.begins = false → ∃ e, g.unary s = .error e s
  rejects : ∀ ⦃s t : State⦄, s.current.1.begins = false → t.current.1 = s.current.1 →
    t.depth ≤ s.depth → (∃ e, g.expression t = .error e t) ∨
      s.refused < (endState (g.expression s)).refused
  /-- Where a statement is read that an expression may begin with, one is read. -/
  tries : ∀ ⦃j : Joint⦄, j.Clean → ∀ ⦃s t : State⦄, Ahead j s t → tokensWeight s.rest ≤ k →
    s.current.1.begins = true → ∀ ⦃x : Stmt⦄ ⦃s' : State⦄, g.statement s = .ok x s' →
      s'.refused = s.refused → ∃ e s₁, g.expression s = .ok e s₁

theorem expectMark_ok
    {w : Mark} {s s' : State} {a : Unit} (h : Grammar.expectMark w s = .ok a s') :
    s.current.1 = .mark w ∧ s' = s.advance := by
  obtain ⟨r, s₁, hr, hrest⟩ := ok_of_bind h
  by_cases hs : s.current.1 = .mark w
  · rw [(Persists.Eats.mark w).yes s hs] at hr
    cases hr
    cases hrest
    exact ⟨hs, rfl⟩
  · rw [(Persists.Eats.mark w).no s hs] at hr
    cases hr
    cases hrest

/-- A repetition goes on where a token was eaten. -/
theorem Persists.Eats.again
    {u : Token} {ate : Parse Bool} (hate : Persists.Eats u ate) {x : Parse (Round α β)} {y : β}
    {a : α} {s s' : State}
    (h : (do if ← ate then x else return Round.done y : Parse _) s = .ok (.again a) s') :
    s.current.1 = u ∧ x s.advance = .ok (.again a) s' := by
  obtain ⟨r, s₁, hr, hrest⟩ := ok_of_bind h
  by_cases hs : s.current.1 = u
  · rw [hate.yes s hs] at hr
    cases hr
    exact ⟨hs, hrest⟩
  · rw [hate.no s hs] at hr
    cases hr
    cases hrest

namespace Mirrors

theorem expectMark
    {w : Mark} (hw : (Token.mark w).opens = false) :
    Mirrors G c F (Grammar.expectMark w) :=
  ifEaten (.mark w) rfl (step rfl (fun h => by cases h) (pure ())) (failExpecting _) fun _ _ => hw

theorem eatMark
    {w : Mark} (hw : (Token.mark w).opens = false) :
    Mirrors G c F (Grammar.eatMark w) :=
  ifMark (step rfl (fun h => by cases h) (pure _)) (pure _) fun _ _ => hw

theorem more
    (a : α) :
    Mirrors G c F
      (do if ← Grammar.eatMark .comma then return Round.again a else return Round.done a) :=
  ifEaten (.mark _) rfl (step rfl (fun h => by cases h) (pure _)) (pure _) fun _ _ => rfl

end Mirrors

/-- One round of a list of types. -/
theorem Persists.typeRound
    {k : Nat} {i : Nat} {g : Reader} (hg : g.Persists k) (acc : List TypeExpr) :
    Persists F k False .something i i
      (do
        let acc := acc ++ [← g.type]
        if ← Grammar.eatMark .comma then return Round.again acc else return Round.done acc) :=
  hg.type.anywhere.paid fun _ => more _

namespace Mirrors

variable {k : Nat} {g : Reader} (hg : g.Persists k)
include hg

theorem typeList :
    Mirrors G True anything (Grammar.typeList g) := by
  refine repeatRead (fun _ => hg.typeMirrors.bind fun _ => more _) (fun s acc _ _ hs h => ?_) ?_ []
  · exact (Persists.typeRound (F := anything) (i := 0) hg acc).length_lt rfl hs trivial h
  · intro _ j hj hfresh s t s' t' acc acc' hst hst' h
    refine Bool.eq_false_iff.mpr fun hend => ?_
    obtain ⟨x, s₁, hx, hrest⟩ := ok_of_bind h
    obtain ⟨hcomma, hagain⟩ := (Persists.Eats.mark .comma).again hrest
    cases hagain
    obtain ⟨c', hc', hends, -⟩ := (hg.type (b := False) (i := 0)).spends (hst.ends hj) trivial hx
    obtain ⟨y, u, r, hr, hy⟩ := hends.rest_eq_cons (hcomma ▸ rfl)
    obtain ⟨hnext, -⟩ := hst'.seam hj hend
    rw [State.advance_eq hr] at hnext
    change u :: r = [_] at hnext
    rw [hr, hnext] at hc'
    have hnot := hst.promises_eq_false hfresh hc'
    rw [← hy, hcomma] at hnot
    cases hnot

theorem typeArgs :
    Mirrors G c F (Grammar.typeArgs g) := by
  have hclose (args : List TypeExpr) : Mirrors G False anything
      (do Grammar.expectMark .greater; return args) :=
    (expectMark rfl).bind fun _ => pure args
  have hargs : Mirrors G True anything
      (do
        let args ← if ← Grammar.atMark .greater then Pure.pure [] else Grammar.typeList g
        Grammar.expectMark .greater
        return args) := by
    refine ifMark ?_ ((typeList hg).bind hclose) fun _ h => absurd trivial h
    exact (hclose []).weaken False.elim fun _ _ => trivial
  refine (expectMark rfl).sequence (fun _ => hargs) fun _ j hj hfresh s t s' t' a hst _ _ h => ?_
  obtain ⟨hfront, rfl⟩ := expectMark_ok h
  exact hst.advance_inside hj hfresh (hfront ▸ rfl) (hfront ▸ rfl)

/-- A wildcard with its bound, if it has one. -/
theorem wildcard :
    Mirrors G c (· = .mark .question) (Grammar.wildcard g) := by
  have hbounded (f : TypeExpr → TypeExpr) :
      Mirrors G True anything (f <$> g.type) :=
    hg.typeMirrors.map
  constructor
  · intro s
    by_cases hextends : s.advance.current.1 = .keyword .extendsKw
    · rw [wildcard_above hextends]
      exact (State.Grows.advance s).trans ((State.Grows.advance _).trans ((hbounded _).grows _))
    by_cases hsuper : s.advance.current.1 = .keyword .superKw
    · rw [wildcard_below hsuper]
      exact (State.Grows.advance s).trans ((State.Grows.advance _).trans ((hbounded _).grows _))
    · rw [wildcard_free hextends hsuper]
      exact .advance s
  · intro j hj s t hst hF hG _
    have hfront : s.current.1.isEof = false := hF ▸ rfl
    have hnext := hst.advance hfront
    have hfirst : G → s.advance.HasEnd := fun h =>
      (hG h).advance (hst.ends hj) hfront (hF ▸ fun h => by cases h)
    by_cases hinside : j.Fresh → s.advance.current.1.isEof = false
    · have hcurrent := hnext.current_of_inside hj hinside
      by_cases hextends : s.advance.current.1 = .keyword .extendsKw
      · rw [wildcard_above hextends, wildcard_above (hcurrent ▸ hextends)]
        have hnext' := hnext.advance (hextends ▸ rfl)
        have hends := (hst.ends hj).advance hfront
        refine .after (.advance hnext) (.after (.advance hnext') ?_)
        refine (hbounded _).mirrors hj hnext' trivial (fun h => ?_) fun _ hfresh => ?_
        · exact (hfirst h).advance hends (hextends ▸ rfl) (hextends ▸ fun h => by cases h)
        · exact hnext.advance_inside hj hfresh (hextends ▸ rfl) (hextends ▸ rfl)
      by_cases hsuper : s.advance.current.1 = .keyword .superKw
      · rw [wildcard_below hsuper, wildcard_below (hcurrent ▸ hsuper)]
        have hnext' := hnext.advance (hsuper ▸ rfl)
        have hends := (hst.ends hj).advance hfront
        refine .after (.advance hnext) (.after (.advance hnext') ?_)
        refine (hbounded _).mirrors hj hnext' trivial (fun h => ?_) fun _ hfresh => ?_
        · exact (hfirst h).advance hends (hsuper ▸ rfl) (hsuper ▸ fun h => by cases h)
        · exact hst.super_inside hj hfresh hF hsuper
      · rw [wildcard_free hextends hsuper, wildcard_free (hcurrent ▸ hextends) (hcurrent ▸ hsuper)]
        exact .ok hnext (.advance hnext) hfirst
    · obtain ⟨hfresh, hend⟩ := Classical.not_imp.mp hinside
      have heof := Bool.of_not_eq_false hend
      obtain ⟨-, hrest, -⟩ := hnext.seam hj heof
      have hcurrent : t.advance.current = j.first := by
        rw [State.current, hrest]
        rfl
      have hs {w : Keyword} : s.advance.current.1 ≠ .keyword w := by
        intro h
        rw [h] at heof
        cases heof
      have hextends : t.advance.current.1 ≠ .keyword .extendsKw := by
        intro h
        have hopens := hfresh.opens
        rw [← hcurrent, h] at hopens
        cases hopens
      have hsuper : t.advance.current.1 ≠ .keyword .superKw := by
        intro h
        have hbound := hfresh.bound (hst.question_last hj hF heof)
        rw [← hcurrent, h] at hbound
        cases hbound
      rw [wildcard_free hs hs, wildcard_free hextends hsuper]
      exact .ok hnext (.advance hnext) hfirst

theorem typeAtom :
    Mirrors G True anything (Grammar.typeAtom g) := by
  refine nested (front (fun t => ?_) (.inr trivial))
  cases t with
  | mark m =>
      cases m with
      | question =>
          exact wildcard hg
      | _ =>
          exact failExpecting _
  | identifier name =>
      refine step rfl (fun h => by cases h) (ifMark ?_ ?_ fun _ _ => rfl)
      · exact (typeArgs hg).bind fun _ => pure _
      · exact (pure []).bind fun _ => pure _
  | keyword w =>
      cases w with
      | nilKw =>
          exact step rfl (fun h => by cases h) (pure _)
      | _ =>
          exact failExpecting _
  | _ =>
      exact failExpecting _

theorem unionRound
    (acc : List TypeExpr) :
    Mirrors G False anything
      (do
        if ← Grammar.eatMark .pipe then return Round.again (acc ++ [← Grammar.typeAtom g])
        else return Round.done (TypeExpr.union acc)) := by
  refine ifEaten (.mark _) rfl ?_ (pure _) fun _ _ => rfl
  exact stepOn rfl (fun h => by cases h) rfl ((typeAtom hg).bind fun _ => pure _)

end Mirrors

/-- Where the first reading succeeds and none is refused, so does the second. -/
theorem Mirrored.ok_of_ok
    {a : α} {y : EStateM.Result ParseError State α} (h : Mirrored j G s t (.ok a s') y)
    (hrefused : s'.refused = s.refused) :
    ∃ t', y = .ok a t' ∧ Ahead j s' t' ∧ (G → s'.HasEnd) := by
  cases h with
  | ok hst hkept hend =>
      exact ⟨_, rfl, hst, hend⟩
  | refused hlt =>
      exact absurd hrefused (Nat.ne_of_gt hlt)

namespace Persists

variable {k i m : Nat} {b : Prop} {l : Load} {g : Reader}

/-- The success of a reader persists when its failure does. -/
theorem of_mirrors
    {p : Parse α} (hspends : ∀ ⦃s : State⦄, s.Ends → F s.current.1 → ∀ ⦃a : α⦄ ⦃s' : State⦄,
      p s = .ok a s' → Spent k b l i m s s')
    (hp : Mirrors False False F p) :
    Persists F k b l i m p where
  spends := hspends
  follows _ hj _ _ hst hF _ _ _ h hrefused _ := by
    have hboth := hp.mirrors hj hst hF False.elim False.elim
    rw [h] at hboth
    obtain ⟨t', ht', hst', -⟩ := hboth.ok_of_ok hrefused
    exact ⟨t', ht', hst'⟩

variable (hg : g.Persists k)
include hg

theorem typeList :
    Persists F k False .nothing i i (Grammar.typeList g) :=
  repeatRead (fun _ => (typeRound hg _).forgive) []

theorem typeArgs :
    Persists F k b .something i i (Grammar.typeArgs g) := by
  have hclose (args : List TypeExpr) : Persists anything k b .something i i
      (do Grammar.expectMark .greater; return args) :=
    (expectMark rfl).paid fun _ => pure args
  refine (expectInner rfl).inside (fun _ => atMark _ (fun _ => ?_) (.moving rfl)) rfl
  exact otherwise ((typeList hg).inside hclose rfl) (hclose [])

theorem wildcard :
    Persists (· = .mark .question) (k + 1) b .something i i (Grammar.wildcard g) := by
  refine of_mirrors (fun s hs hF a s' h => ?_) (.wildcard hg)
  have hends := hs.advance (hF ▸ rfl)
  have hbounded (f : TypeExpr → TypeExpr) (w : Keyword) (hw : s.advance.current.1 = .keyword w)
      (h : (f <$> g.type) s.advance.advance = .ok a s') : Spent (k + 1) b .something i i s s' := by
    have hword : Spent k False .something i i s.advance s.advance.advance :=
      .step hends rfl (hw ▸ rfl) (hw ▸ fun h => by cases h)
        (.token (hw ▸ rfl)) (List.cons_ne_nil _ _) False.elim
    have hbound : Spent k b .something i i s.advance.advance s' :=
      (hg.type.map (f := f)).spends hword.ends trivial h
    have hboth := hword.trans hbound (fun _ => .inr rfl) (.inl (Nat.le_refl k)) (.inl rfl)
    refine hboth.question hs hF ?_
    have hlt := hword.length_lt rfl
    have hlt' := hbound.length_lt rfl
    omega
  by_cases hextends : s.advance.current.1 = .keyword .extendsKw
  · rw [wildcard_above hextends] at h
    exact hbounded _ _ hextends h
  by_cases hsuper : s.advance.current.1 = .keyword .superKw
  · rw [wildcard_below hsuper] at h
    exact hbounded _ _ hsuper h
  · rw [wildcard_free hextends hsuper] at h
    cases h
    obtain ⟨t, u, r, hrest, ht⟩ := hs.rest_eq_cons (hF ▸ rfl)
    obtain ⟨t, c⟩ := t
    have hquestion : t = .mark .question := by rw [← hF, ht]
    subst hquestion
    refine ⟨[(.mark .question, c)], ?_, hends, fun _ => .advance s, fun _ _ _ => rfl,
      List.cons_ne_nil _ _, ⟨fun _ _ _ => hsuper, fun ts a b h => ?_⟩, fun _ x hx => ?_⟩
    · rw [hrest, State.advance_eq hrest]
      rfl
    · have hlength := congrArg List.length h
      simp at hlength
    · rw [List.getLast?_singleton, Option.mem_some_iff] at hx
      subst hx
      rfl

theorem typeAtom :
    Persists F (k + 1) b .something i i (Grammar.typeAtom g) := by
  refine nested (front (fun t _ => ?_) (.moving rfl))
  cases t with
  | mark m =>
      cases m with
      | question =>
          exact wildcard hg
      | _ =>
          exact failExpecting _
  | identifier name =>
      refine step rfl (ifMark ?_ ?_ fun _ _ => rfl)
      · exact (typeArgs hg).forgive.bind fun _ => pure _
      · exact pure _
  | keyword w =>
      cases w with
      | nilKw =>
          exact step rfl (pure _)
      | _ =>
          exact failExpecting _
  | _ =>
      exact failExpecting _

/-- One round of a union. -/
theorem unionRound
    (acc : List TypeExpr) :
    Persists F k b .nothing i i
      (do
        if ← Grammar.eatMark .pipe then return Round.again (acc ++ [← Grammar.typeAtom g])
        else return Round.done (TypeExpr.union acc)) := by
  refine ifEaten (.mark _) rfl ?_ (pure _) fun _ _ => rfl
  refine (stepOn (k := k) (l := .something) rfl ?_ rfl).forgive.down
  exact (typeAtom hg).down.paid fun _ => pure _

theorem typeExpr :
    Persists F (k + 1) b .something i i (Grammar.typeExpr g) := by
  refine (typeAtom hg).pay (fun first => ifMark ?_ (pure first) fun _ _ => rfl) rfl
  exact repeatRead (unionRound hg) [first]

end Persists

namespace Mirrors

variable {k : Nat} {g : Reader} (hg : g.Persists k)
include hg

theorem typeExpr :
    Mirrors G True anything (Grammar.typeExpr g) := by
  refine (typeAtom hg).bind fun first => ifMark ?_ (pure first) fun _ _ => rfl
  refine (repeatRead (unionRound hg) (fun s acc acc' s' hs h => ?_) False.elim [first]).weaken
    False.elim fun _ _ => trivial
  obtain ⟨hpipe, hagain⟩ := (Persists.Eats.mark .pipe).again h
  have hends := hs.advance (hpipe ▸ rfl)
  have hatom : Persists anything k False .something 0 0
      (do return Round.again (acc ++ [← Grammar.typeAtom g]) : Parse (Round _ TypeExpr)) :=
    (Persists.typeAtom hg).down.paid fun _ => .pure _
  obtain ⟨hends', hlt⟩ := hatom.length_lt rfl hends trivial hagain
  obtain ⟨y, u, r, hrest, -⟩ := hs.rest_eq_cons (hpipe ▸ rfl)
  refine ⟨hends', Nat.lt_trans hlt ?_⟩
  rw [State.advance_eq hrest, hrest]
  exact Nat.lt_succ_self _

/-- The attempt to read type arguments of a call. -/
theorem calledTypeArgs :
    Mirrors G c F
      (do
        let args ← Grammar.typeArgs g
        if ← Grammar.atMark .leftParen then
          if ← Grammar.continuesLine then return some args
        return none) := by
  refine (typeArgs hg).bind fun args => look
    (v := fun s => if s.current.1.isMark .leftParen && s.joinsLine then some args else none)
    (callTypeArgs?_check args) fun {j s t} hj hst => ?_
  by_cases hinside : j.Fresh → s.current.1.isEof = false
  · have hcurrent := hst.current_of_inside hj hinside
    rw [State.joinsLine, State.joinsLine, hcurrent, hst.last_eq]
  · obtain ⟨hfresh, hend⟩ := Classical.not_imp.mp hinside
    have heof := Bool.of_not_eq_false hend
    have hfront : s.current.1.isMark .leftParen = false := by
      refine Bool.eq_false_iff.mpr fun h => hend ?_
      rw [Token.isMark_iff.mp h]
      rfl
    rw [hst.joinsLine_seam hj hfresh heof, hfront]
    simp

/-- A type parameter of a declaration that is closed within the first text. -/
theorem typeParam :
    Mirrors True c F (Grammar.typeParam g) := by
  have hword {α : Type} {c : Prop} {F : Token → Prop} {w : Keyword} {a : α} {p : Parse α}
      (hw : w ≠ .endKw) (hp : Mirrors True c F p) :
      Mirrors True c F (do if ← Grammar.eatWord w then return a else p) := by
    refine ifEaten (.word w) rfl (step rfl (fun h => hw ?_) (pure _)) hp fun h => absurd trivial h
    cases h
    rfl
  have hname : Mirrors True False anything Grammar.expectName := by
    refine front (fun t => ?_) (.inl trivial)
    cases t with
    | identifier name =>
        exact step rfl (fun h => by cases h) (pure _)
    | _ =>
        exact failExpecting _
  have hvariance : Mirrors True c F Grammar.variance :=
    hword (fun h => by cases h) (hword (fun h => by cases h) (pure _))
  refine hvariance.bind fun _ => hname.bind fun _ => ifEaten (.word _) rfl ?_ ?_ fun _ _ => rfl
  · refine stepOn rfl (fun h => by cases h) rfl (hg.typeMirrors.map.bind fun _ => ?_)
    exact (eatMark rfl).bind fun _ => pure _
  · exact (pure none).bind fun _ => (eatMark rfl).bind fun _ => pure _

end Mirrors

namespace Persists

variable {k i m : Nat} {b : Prop} {l : Load} {g : Reader}

/-- An attempt consumes what succeeds, or nothing. -/
theorem tryRead_spent
    {p : Parse (Option α)} (hgrows : s.Within k → s.Grows (endState (p s)))
    {a : Option α} (hs : s.Ends) (hp : ∀ a s', p s = .ok a s' → Spent k b .nothing i i s s')
    (h : Grammar.tryRead p s = .ok a s') :
    Spent k b .nothing i i s s' := by
  rw [tryRead_apply] at h
  cases hx : p s with
  | ok x s₁ =>
      rw [hx] at h hgrows
      cases x with
      | none =>
          cases h
          exact .stay hs rfl fun h => ⟨(hgrows h).size, (hgrows h).refused⟩
      | some x =>
          cases h
          exact hp _ _ hx
  | error e s₁ =>
      rw [hx] at h hgrows
      cases h
      exact .stay hs rfl fun h => ⟨(hgrows h).size, (hgrows h).refused⟩

variable (hg : g.Persists k)
include hg

theorem callTypeArgs? :
    Persists F k b .nothing i i (Grammar.callTypeArgs? g) := by
  have hinner := Mirrors.calledTypeArgs (G := False) (c := False) (F := F) hg
  refine of_mirrors (fun s hs hF a s' h => ?_) hinner.tryRead
  refine tryRead_spent (fun _ => hinner.grows s) hs (fun x s₁ hx => ?_) h
  obtain ⟨args, s₂, hargs, hrest⟩ := ok_of_bind hx
  rw [callTypeArgs?_check] at hrest
  cases hrest
  exact ((typeArgs hg).spends hs hF hargs).weaken (Nat.le_refl k) id (.inr (.inl rfl))

theorem typeParam :
    Persists F k False .something i i (Grammar.typeParam g) := by
  have hvariance : Persists F k False .nothing i i Grammar.variance :=
    eatWord.bind fun _ => either (pure _) (eatWord.bind fun _ => either (pure _) (pure _))
  refine hvariance.bind fun _ => expectName.paid fun _ => eatWord.bind fun _ => ?_
  refine optional (hg.type.forgive.map.bind fun _ => ?_) ?_
  · exact (eatMark rfl).bind fun _ => pure _
  · exact (eatMark rfl).bind fun _ => pure _

theorem typeParams :
    Persists F k b .something i i (Grammar.typeParams g) := by
  refine (expectInner rfl).inside (fun _ => ?_) rfl
  refine (repeatRead (l := .nothing) (fun _ => ?_) []).inside
    (fun _ => (expectMark rfl).paid fun _ => pure _) rfl
  exact (typeParam hg).forgive.bind fun _ => more _

end Persists

namespace Mirrors

variable {k : Nat} {g : Reader} (hg : g.Persists k)
include hg

theorem typeParams :
    Mirrors True c F (Grammar.typeParams g) := by
  refine (expectMark rfl).bind fun _ => ?_
  refine (repeatRead (fun _ => (typeParam hg).bind fun _ => more _) (fun s acc _ _ hs h => ?_)
    False.elim []).bind fun _ => (expectMark rfl).bind fun _ => pure _
  have hround : Persists anything k False .something 0 0
      (do
        let acc := acc ++ [← Grammar.typeParam g]
        if ← Grammar.eatMark .comma then return Round.again acc else return Round.done acc) :=
    (Persists.typeParam hg).paid fun _ => .more _
  exact hround.length_lt rfl hs trivial h

theorem optionalTypeParams :
    Mirrors True c F (Grammar.optionalTypeParams g) :=
  ifMark ((typeParams hg).map.tryRead.bind fun _ => pure _) (pure []) fun _ _ => rfl

end Mirrors

/-- Where the word that closes a block is consumed, it was still to come. -/
theorem Spent.hasEnd
    {k : Nat} {b : Prop} {i m : Nat} (h : Spent k b .closure i m s s') :
    s.HasEnd := by
  obtain ⟨c, hrest, -, -, -, ⟨x, hx, hword⟩, -⟩ := h
  exact ⟨x, hrest ▸ List.mem_append_left _ hx, hword⟩

theorem Spent.hasEnd_of_hasEnd
    {k : Nat} {b : Prop} {l : Load} {i m : Nat} (h : Spent k b l i m s s') (hend : s'.HasEnd) :
    s.HasEnd := by
  obtain ⟨c, hrest, -⟩ := h
  obtain ⟨x, hx, hword⟩ := hend
  exact ⟨x, hrest ▸ List.mem_append_right _ hx, hword⟩

namespace Persists

variable {k i m n : Nat} {b : Prop} {g : Reader}

/-- A part before the word that closes a block, which may be an attempt that fails. -/
theorem closing
    {p : Parse α} {f : α → Parse β} (hspends : ∀ ⦃s : State⦄, s.Ends → F s.current.1 →
      ∀ ⦃a : α⦄ ⦃s' : State⦄, p s = .ok a s' → Spent k False .nothing i n s s')
    (hp : Mirrors True False F p) (hf : ∀ a, Persists anything k b .closure n m (f a)) :
    Persists F k b .closure i m (p >>= f) where
  spends _ hs hF _ _ h := by
    obtain ⟨a, s₁, hp₁, hf₁⟩ := ok_of_bind h
    have hfirst := hspends hs hF hp₁
    exact hfirst.trans ((hf a).spends hfirst.ends trivial hf₁) (fun _ => .inr rfl)
      (.inl (Nat.le_refl k))
      (.inr rfl)
  follows _ hj _ _ hst hF hweight _ _ h hrefused hend := by
    obtain ⟨a, s₁, hp₁, hf₁⟩ := ok_of_bind h
    have hfirst := hspends (hst.ends hj) hF hp₁
    have hsecond := (hf a).spends hfirst.ends trivial hf₁
    have hwithin := hst.within hweight
    have hwithin' := hfirst.within hwithin (.inl (Nat.le_refl k))
    have hle := (hfirst.grows hwithin).refused
    have hle' := (hsecond.grows hwithin').refused
    have hboth := hp.mirrors hj hst hF (fun _ => hfirst.hasEnd_of_hasEnd hsecond.hasEnd) False.elim
    rw [hp₁] at hboth
    obtain ⟨t₁, ht₁, hst₁, -⟩ := hboth.ok_of_ok (by omega)
    obtain ⟨t', ht', hst'⟩ := (hf a).follows hj hst₁ trivial hwithin'.weight hf₁ (by omega) hend
    exact ⟨t', by rw [ok_bind ht₁, ht'], hst'⟩

variable (hg : g.Persists k)
include hg

/-- Type parameters in the header of a declaration that is closed later on. -/
theorem optionalTypeParams
    {f : List TypeParam → Parse β} (hf : ∀ params, Persists anything k b .closure i m (f params)) :
    Persists F k b .closure i m (Grammar.optionalTypeParams g >>= f) := by
  refine closing (fun s hs hF params s' h => ?_) (.optionalTypeParams hg) hf
  obtain ⟨r, s₁, hr, hrest⟩ := ok_of_bind h
  have hlook : Grammar.atMark .less s = .ok (s.current.1.isMark .less) s := rfl
  rw [hlook] at hr
  cases hr
  cases hless : s.current.1.isMark .less with
  | false =>
      rw [hless] at hrest
      cases hrest
      exact .refl hs
  | true =>
      rw [hless] at hrest
      obtain ⟨x, s₂, hx, hdone⟩ := ok_of_bind hrest
      cases hdone
      refine tryRead_spent
        (fun _ => (Mirrors.typeParams (c := False) (F := anything) hg).map.grows s) hs
        (fun y s₃ hy => ?_) hx
      exact ((typeParams (b := False) (F := F) hg).map.forgive).spends hs hF hy

end Persists

end Grammar
end ScriptEngine
