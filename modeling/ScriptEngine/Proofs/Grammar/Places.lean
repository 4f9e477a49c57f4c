import ScriptEngine.Proofs.Grammar.Likeness

/-!
# Places in texts of the same layout

Two reading states are alike when the tokens left have the same layout, the tokens in front both
continue their lines or both do not, and the nesting depths agree.  How many tokens there were at
the start may differ, and how many readers were refused: what was read before leaves no other trace.

* `State.Alike` compares states, `Onward` follows two of them to later places.
* `State.Balanced` keeps account of the levels that refused readers leave open.
* `tokensWeight` measures what is left; every token consumed makes it smaller.
-/

namespace ScriptEngine

/-! ### Tokens in the same layout -/

namespace Token.Alike

variable {t u : Token}

theorem isMark_eq
    (h : t.Alike u) (m : Mark) :
    t.isMark m = u.isMark m := by
  cases h <;> rfl

theorem isKeyword_eq
    (h : t.Alike u) (k : Keyword) :
    t.isKeyword k = u.isKeyword k := by
  cases h <;> rfl

theorem isEof_eq
    (h : t.Alike u) :
    t.isEof = u.isEof := by
  cases h <;> rfl

theorem endsBlock_eq
    (h : t.Alike u) :
    t.endsBlock = u.endsBlock := by
  cases h <;> rfl

theorem memberWord?_eq
    (h : t.Alike u) :
    t.memberWord? = u.memberWord? := by
  cases h <;> rfl

end Token.Alike

namespace SameLayout

variable {t u : LocatedToken} {ts us : List LocatedToken}

theorem head
    (h : SameLayout (t :: ts) (u :: us)) :
    t.1.Alike u.1 := by
  cases h with
  | single htoken =>
      exact htoken
  | cons htoken _ _ =>
      exact htoken

theorem tail
    (h : SameLayout (t :: ts) (u :: us)) :
    SameLayout ts us := by
  cases h with
  | single _ =>
      exact .nil
  | cons _ _ hrest =>
      exact hrest

theorem length_eq
    (h : SameLayout ts us) :
    ts.length = us.length := by
  induction ts generalizing us with
  | nil =>
      cases h
      rfl
  | cons t ts ih =>
      cases h with
      | single _ =>
          rfl
      | cons _ _ hrest =>
          simpa using ih hrest

theorem current
    (h : SameLayout ts us) :
    (ts.headD (.eof, default)).1.Alike (us.headD (.eof, default)).1 := by
  cases h with
  | nil =>
      exact .eof
  | single htoken =>
      exact htoken
  | cons htoken _ _ =>
      exact htoken

/-- The tokens at one position, the end of the text behind the last one. -/
theorem nth
    (h : SameLayout ts us) (n : Nat) :
    ((ts[n]?).elim Token.eof Prod.fst).Alike ((us[n]?).elim Token.eof Prod.fst) := by
  induction n generalizing ts us with
  | zero =>
      cases h with
      | nil =>
          exact .eof
      | single htoken =>
          exact htoken
      | cons htoken _ _ =>
          exact htoken
  | succ n ih =>
      cases h with
      | nil =>
          exact .eof
      | single _ =>
          exact .eof
      | cons _ _ hrest =>
          simpa using ih hrest

theorem last
    (h : SameLayout ts us) :
    Option.Rel (fun t u => t.1.Alike u.1) ts.getLast? us.getLast? := by
  induction ts generalizing us with
  | nil =>
      cases h
      exact .none
  | cons t ts ih =>
      cases h with
      | single htoken =>
          exact .some htoken
      | cons _ _ hrest =>
          simpa using ih hrest

/-- What follows the last tokens, on their lines in both texts or in neither. -/
theorem concat
    {v w : Token} {c d : Span} (h : SameLayout ts us) (hlast : ts.getLast? = some t)
    (hlast' : us.getLast? = some u) (htoken : v.Alike w)
    (hline : c.line = t.2.line ↔ d.line = u.2.line) :
    SameLayout (ts ++ [(v, c)]) (us ++ [(w, d)]) := by
  induction ts generalizing us with
  | nil =>
      cases hlast
  | cons x ts ih =>
      cases h with
      | single h =>
          cases hlast
          cases hlast'
          exact .cons h hline (.single htoken)
      | cons h hnext hrest =>
          exact .cons h hnext (ih hrest (by simpa using hlast) (by simpa using hlast'))

end SameLayout

namespace Grammar

/-- Looking ahead for the arrow of a lambda sees tokens only. -/
theorem lambdaAhead_eq
    {ts us : List LocatedToken} (h : SameLayout ts us) (depth : Nat) :
    lambdaAhead depth ts = lambdaAhead depth us := by
  induction ts generalizing us depth with
  | nil =>
      cases h
      rfl
  | cons t ts ih =>
      obtain ⟨t, a⟩ := t
      obtain _ | ⟨⟨u, b⟩, us⟩ := us
      · cases h
      · cases h.head with
        | mark m =>
            cases m with
            | leftParen =>
                exact ih h.tail _
            | rightParen =>
                show ite _ _ _ = ite _ _ _
                split
                · cases h with
                  | single _ =>
                      rfl
                  | cons _ _ hrest =>
                      exact congrArg₂ or (hrest.head.isMark_eq _) (hrest.head.isMark_eq _)
                · exact ih h.tail _
            | _ =>
                exact ih h.tail _
        | eof =>
            rfl
        | _ =>
            exact ih h.tail _

/-! ### Weights -/

mutual

theorem tokenWeight_eq
    {t u : Token} (h : t.Alike u) :
    tokenWeight t = tokenWeight u := by
  cases h with
  | template hparts =>
      simp only [tokenWeight, partsWeight_eq hparts]
  | _ =>
      rfl

theorem partsWeight_eq
    {ps qs : List TemplatePart} (h : TemplatePart.AllAlike ps qs) :
    partsWeight ps = partsWeight qs := by
  cases h with
  | nil =>
      rfl
  | text s hparts =>
      simp only [partsWeight, partWeight, partsWeight_eq hparts]
  | hole htokens hparts =>
      simp only [partsWeight, partWeight, tokensWeight_eq htokens, partsWeight_eq hparts]

theorem tokensWeight_eq
    {ts us : List LocatedToken} (h : SameLayout ts us) :
    tokensWeight ts = tokensWeight us := by
  cases h with
  | nil =>
      rfl
  | single htoken =>
      simp only [tokensWeight, pairWeight, tokenWeight_eq htoken]
  | cons htoken _ hrest =>
      exact congrArg₂ (· + ·) (tokenWeight_eq htoken) (tokensWeight_eq hrest)

end

theorem tokenWeight_pos
    (t : Token) :
    0 < tokenWeight t := by
  cases t with
  | template parts =>
      exact Nat.lt_add_right _ Nat.one_pos
  | _ =>
      exact Nat.one_pos

theorem tokensWeight_cons
    (t : LocatedToken) (ts : List LocatedToken) :
    tokensWeight (t :: ts) = tokenWeight t.1 + tokensWeight ts := by
  obtain ⟨t, a⟩ := t
  rfl

theorem tokensWeight_append
    (ts us : List LocatedToken) :
    tokensWeight (ts ++ us) = tokensWeight ts + tokensWeight us := by
  induction ts with
  | nil =>
      simp [tokensWeight]
  | cons t ts ih =>
      simp [tokensWeight, ih, Nat.add_assoc]

theorem length_le_tokensWeight
    (ts : List LocatedToken) :
    ts.length ≤ tokensWeight ts := by
  induction ts with
  | nil =>
      exact Nat.zero_le _
  | cons t ts ih =>
      have hpos := tokenWeight_pos t.1
      rw [tokensWeight_cons, List.length_cons]
      omega

/-- Every token consumed weighs something. -/
theorem tokensWeight_lt_of_suffix
    {ts us : List LocatedToken} (h : ts <:+ us) (hlength : ts.length < us.length) :
    tokensWeight ts < tokensWeight us := by
  obtain ⟨vs, rfl⟩ := h
  have hle := length_le_tokensWeight vs
  simp only [List.length_append] at hlength
  rw [tokensWeight_append]
  omega

theorem tokensWeight_le_of_suffix
    {ts us : List LocatedToken} (h : ts <:+ us) :
    tokensWeight ts ≤ tokensWeight us := by
  obtain ⟨vs, rfl⟩ := h
  rw [tokensWeight_append]
  exact Nat.le_add_left _ _

/-! ### States -/

theorem State.current_eq
    {s : State} {t : LocatedToken} {ts : List LocatedToken} (hs : s.rest = t :: ts) :
    s.current = t := by
  rw [State.current, hs, List.headD_cons]

theorem State.advance_eq
    {s : State} {t u : LocatedToken} {ts : List LocatedToken} (hs : s.rest = t :: u :: ts) :
    s.advance = { s with rest := u :: ts, last := some t.2 } := by
  rw [State.advance, hs]

/-- Whether the token in front stands on the line of the token consumed last. -/
def State.joinsLine (s : State) : Bool :=
  match s.last with
  | some l => s.current.2.line == l.line
  | none => false

/-- A state that reading can come to: the end of the text stands last, and there are no more tokens
than at the start. -/
structure State.Whole (s : State) : Prop where
  ends : ∃ a, s.rest.getLast? = some (.eof, a)
  fits : s.rest.length ≤ s.size

structure State.Alike (s t : State) : Prop where
  layout : SameLayout s.rest t.rest
  joined : s.joinsLine = t.joinsLine
  depth : s.depth = t.depth
  left : s.Whole
  right : t.Whole

/-- A state reached from an earlier one by consuming tokens. -/
structure State.After (s s' : State) : Prop where
  rest : s'.rest <:+ s.rest
  size : s'.size = s.size

/-- The nesting depth has grown by the number of readers refused meanwhile, and by nothing else. -/
def State.Balanced (s s' : State) : Prop :=
  ∃ n, s'.refused = s.refused + n ∧ s'.depth = s.depth + n

/-- Two states that are alike, each reached from an earlier one. -/
structure Onward (s t s' t' : State) : Prop where
  alike : s'.Alike t'
  left : s.After s'
  right : t.After t'
  balanced : s.Balanced s'

theorem State.After.refl
    (s : State) :
    s.After s :=
  ⟨List.suffix_rfl, rfl⟩

theorem State.After.trans
    {s s' s'' : State} (h : s.After s') (h' : s'.After s'') :
    s.After s'' :=
  ⟨h'.rest.trans h.rest, h'.size.trans h.size⟩

theorem State.Balanced.refl
    (s : State) :
    s.Balanced s :=
  ⟨0, rfl, rfl⟩

theorem State.Balanced.trans
    {s s' s'' : State} (h : s.Balanced s') (h' : s'.Balanced s'') :
    s.Balanced s'' := by
  obtain ⟨m, hrefused, hdepth⟩ := h
  obtain ⟨n, hrefused', hdepth'⟩ := h'
  exact ⟨m + n, by omega, by omega⟩

namespace Onward

variable {s t s' t' s'' t'' : State}

theorem refl
    (h : s.Alike t) :
    Onward s t s t :=
  ⟨h, .refl s, .refl t, .refl s⟩

theorem trans
    (h : Onward s t s' t') (h' : Onward s' t' s'' t'') :
    Onward s t s'' t'' :=
  ⟨h'.alike, h.left.trans h'.left, h.right.trans h'.right, h.balanced.trans h'.balanced⟩

end Onward

namespace State.Whole

variable {s : State}

theorem ne_nil
    (h : s.Whole) :
    s.rest ≠ [] := by
  obtain ⟨a, hlast⟩ := h.ends
  rintro heq
  simp [heq] at hlast

theorem weight_pos
    (h : s.Whole) :
    0 < tokensWeight s.rest :=
  Nat.lt_of_lt_of_le (List.length_pos_of_ne_nil h.ne_nil) (length_le_tokensWeight _)

theorem current_weight
    (h : s.Whole) :
    tokenWeight s.current.1 ≤ tokensWeight s.rest := by
  obtain ⟨_ | ⟨t, ts⟩, last, depth, size, refused⟩ := s
  · exact absurd rfl h.ne_nil
  · rw [tokensWeight_cons]
    exact Nat.le_add_right _ _

/-- A token that is not the end of the text is consumed. -/
theorem advance_length
    (h : s.Whole) (hfront : s.current.1.isEof = false) :
    s.advance.rest.length < s.rest.length := by
  obtain ⟨_ | ⟨t, _ | ⟨u, ts⟩⟩, last, depth, size, refused⟩ := s
  · exact absurd rfl h.ne_nil
  · obtain ⟨a, hlast⟩ := h.ends
    cases hlast
    cases hfront
  · exact Nat.lt_succ_self _

theorem of_suffix
    {s' : State} (h : s.Whole) (hafter : s.After s') (hne : s'.rest ≠ []) :
    s'.Whole := by
  obtain ⟨a, hlast⟩ := h.ends
  obtain ⟨vs, hrest⟩ := hafter.rest
  refine ⟨⟨a, ?_⟩, ?_⟩
  · rw [← hlast, ← hrest, List.getLast?_append_of_ne_nil _ hne]
  · rw [hafter.size]
    exact Nat.le_trans hafter.rest.length_le h.fits

end State.Whole

theorem State.After.advance
    (s : State) :
    s.After s.advance := by
  obtain ⟨_ | ⟨t, _ | ⟨u, ts⟩⟩, last, depth, size, refused⟩ := s
  · exact .refl _
  · exact .refl _
  · exact ⟨List.suffix_cons _ _, rfl⟩

theorem State.Balanced.advance
    (s : State) :
    s.Balanced s.advance := by
  obtain ⟨_ | ⟨t, _ | ⟨u, ts⟩⟩, last, depth, size, refused⟩ := s <;> exact .refl _

theorem State.Whole.advance {s : State}
    (h : s.Whole) :
    s.advance.Whole := by
  refine h.of_suffix (.advance s) ?_
  obtain ⟨_ | ⟨t, _ | ⟨u, ts⟩⟩, last, depth, size, refused⟩ := s
  · exact h.ne_nil
  · exact List.cons_ne_nil _ _
  · exact List.cons_ne_nil _ _

namespace State.Alike

variable {s t : State}

theorem current
    (h : s.Alike t) :
    s.current.1.Alike t.current.1 :=
  h.layout.current

theorem advance
    (h : s.Alike t) :
    Onward s t s.advance t.advance := by
  obtain ⟨rest, last, depth, size, refused⟩ := s
  obtain ⟨rest', last', depth', size', refused'⟩ := t
  obtain ⟨hlayout, hjoined, hdepth, hs, ht⟩ := h
  cases hlayout with
  | nil =>
      exact absurd rfl hs.ne_nil
  | single htoken =>
      exact .refl ⟨.single htoken, hjoined, hdepth, hs, ht⟩
  | @cons t u t' u' a b a' b' ts us _ hline hrest =>
      have hafter : State.After ⟨(t, a) :: (t', a') :: ts, last, depth, size, refused⟩
          ⟨(t', a') :: ts, some a, depth, size, refused⟩ := ⟨List.suffix_cons _ _, rfl⟩
      have hafter' : State.After ⟨(u, b) :: (u', b') :: us, last', depth', size', refused'⟩
          ⟨(u', b') :: us, some b, depth', size', refused'⟩ := ⟨List.suffix_cons _ _, rfl⟩
      refine ⟨⟨hrest, ?_, hdepth, hs.of_suffix hafter (List.cons_ne_nil _ _),
        ht.of_suffix hafter' (List.cons_ne_nil _ _)⟩, hafter, hafter', ⟨0, rfl, rfl⟩⟩
      rw [Bool.eq_iff_iff]
      simpa [State.joinsLine, State.current, State.advance] using hline

/-- The depth may change, in both states alike, and the readers that were refused do not count. -/
theorem withDepth
    (h : s.Alike t) (f : Nat → Nat) (m n : Nat) :
    State.Alike { s with depth := f s.depth, refused := m }
      { t with depth := f t.depth, refused := n } :=
  ⟨h.layout, h.joined, congrArg f h.depth, ⟨h.left.ends, h.left.fits⟩,
    ⟨h.right.ends, h.right.fits⟩⟩

/-- A refused reader leaves one level open. -/
theorem refuse
    (h : s.Alike t) :
    Onward s t { s with depth := s.depth + 1, refused := s.refused + 1 }
      { t with depth := t.depth + 1, refused := t.refused + 1 } :=
  ⟨h.withDepth (· + 1) _ _, ⟨List.suffix_rfl, rfl⟩, ⟨List.suffix_rfl, rfl⟩, ⟨1, rfl, rfl⟩⟩

/-- Going back to an earlier place keeps the counters. -/
theorem back
    {s' t' : State} (h : s.Alike t) (h' : Onward s t s' t') :
    Onward s t { s' with rest := s.rest, last := s.last }
      { t' with rest := t.rest, last := t.last } :=
  ⟨⟨h.layout, h.joined, h'.alike.depth, ⟨h.left.ends, h'.left.size ▸ h.left.fits⟩,
    ⟨h.right.ends, h'.right.size ▸ h.right.fits⟩⟩, ⟨List.suffix_rfl, h'.left.size⟩,
    ⟨List.suffix_rfl, h'.right.size⟩, h'.balanced⟩

end State.Alike

/-- A level is closed again where it was opened. -/
theorem Onward.level
    {s t s' t' : State}
    (h : Onward { s with depth := s.depth + 1 } { t with depth := t.depth + 1 } s' t') :
    Onward s t { s' with depth := s'.depth - 1 } { t' with depth := t'.depth - 1 } := by
  obtain ⟨n, hrefused, hdepth⟩ := h.balanced
  have hclosed : s'.depth - 1 = s.depth + n := by
    rw [hdepth, Nat.add_right_comm, Nat.add_sub_cancel]
  exact ⟨h.alike.withDepth (· - 1) _ _, ⟨h.left.rest, h.left.size⟩, ⟨h.right.rest, h.right.size⟩,
    ⟨n, hrefused, hclosed⟩⟩

/-! ### The start of a text -/

theorem State.whole_ofTokens
    (ts : List LocatedToken) :
    (State.ofTokens ts).Whole := by
  refine ⟨?_, Nat.le_refl _⟩
  unfold State.ofTokens
  dsimp only
  split
  · next a hlast =>
      exact ⟨a, hlast⟩
  · exact ⟨_, List.getLast?_concat⟩
  · exact ⟨_, rfl⟩

theorem State.weight_ofTokens
    (ts : List LocatedToken) :
    tokensWeight (State.ofTokens ts).rest ≤ tokensWeight ts + 1 := by
  unfold State.ofTokens
  dsimp only
  split
  · exact Nat.le_succ _
  · rw [tokensWeight_append]
    exact Nat.le_refl _
  · exact Nat.le_add_left _ _

theorem State.Alike.ofTokens
    {ts us : List LocatedToken} (h : SameLayout ts us) :
    (State.ofTokens ts).Alike (State.ofTokens us) := by
  have hrest : SameLayout (State.ofTokens ts).rest (State.ofTokens us).rest := by
    unfold State.ofTokens
    have hlast := h.last
    cases hts : ts.getLast? with
    | none =>
        cases hus : us.getLast? with
        | none =>
            exact .single .eof
        | some u =>
            simp [hts, hus] at hlast
    | some t =>
        cases hus : us.getLast? with
        | none =>
            simp [hts, hus] at hlast
        | some u =>
            obtain ⟨t, a⟩ := t
            obtain ⟨u, b⟩ := u
            rw [hts, hus] at hlast
            cases hlast with
            | some htoken =>
                cases htoken with
                | eof =>
                    exact h
                | _ =>
                    exact h.concat hts hus .eof (iff_of_true rfl rfl)
  exact ⟨hrest, rfl, rfl, State.whole_ofTokens ts, State.whole_ofTokens us⟩

end Grammar
end ScriptEngine
