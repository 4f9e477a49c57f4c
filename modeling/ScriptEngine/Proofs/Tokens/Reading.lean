import ScriptEngine.Proofs.Tokens.Blanks
import ScriptEngine.Proofs.Tokens.Lexemes
import ScriptEngine.Proofs.Tokens.Quotes

/-!
# Reading a text

`Tokenized` says, without bounds, what is read of a text from a place on: blanks and one token after
another, and blanks up to the end.  `tokenize` reads just that (`tokenize_eq_ok_iff`), since its
bounds are enough: each token takes some of the text, and a hole is shorter than the text that it
stands in (`tokenizeNested_eq`).
-/

namespace ScriptEngine

/-! ### Places -/

theorem byteLength_append
    (cs ds : List Char) :
    byteLength (cs ++ ds) = byteLength cs + byteLength ds := by
  induction cs with
  | nil =>
      simp [byteLength]
  | cons c cs ih =>
      rw [List.cons_append, byteLength, byteLength, ih, Nat.add_assoc]

theorem byteLength_pos
    {cs : List Char} (h : cs ≠ []) :
    0 < byteLength cs := by
  cases cs with
  | nil =>
      exact absurd rfl h
  | cons c cs =>
      exact Nat.lt_of_lt_of_le c.utf8Size_pos (Nat.le_add_right _ _)

theorem byteLength_eq
    (cs : List Char) :
    byteLength cs = (String.ofList cs).utf8ByteSize := by
  induction cs with
  | nil =>
      rfl
  | cons c cs ih =>
      rw [byteLength, ih, String.ofList_cons, String.utf8ByteSize_append,
        String.utf8ByteSize_singleton]

/-- A place in a text, behind what stands before it. -/
structure Place.Behind (p : Place) (before : List Char) : Prop where
  offset : p.offset = byteLength before
  line : p.line = 1 + before.count '\n'

namespace Place.Behind

variable {p : Place} {before : List Char}

theorem step
    (h : p.Behind before) (c : Char) :
    (p.step c).Behind (before ++ [c]) := by
  by_cases hc : c = '\n'
  · subst hc
    refine ⟨?_, by simp [Place.step, h.line, Nat.add_assoc]⟩
    rw [byteLength_append, ← h.offset]
    rfl
  · exact ⟨by simp [Place.step, hc, byteLength_append, byteLength, h.offset],
      by simp [Place.step, hc, h.line]⟩

theorem stepBlank
    (h : p.Behind before) (c : Char) :
    (p.stepBlank c).Behind (before ++ [c]) := by
  by_cases hc : c = '\n'
  · subst hc
    refine ⟨?_, by simp [Place.stepBlank, h.line, Nat.add_assoc]⟩
    rw [byteLength_append, ← h.offset]
    rfl
  · exact ⟨by simp [Place.stepBlank, hc, byteLength_append, byteLength, h.offset],
      by simp [Place.stepBlank, hc, h.line]⟩

theorem origin :
    Place.origin.Behind [] :=
  ⟨rfl, rfl⟩

theorem advance
    (h : p.Behind before) (cs : List Char) :
    (p.advance cs).Behind (before ++ cs) := by
  induction cs generalizing p before with
  | nil =>
      simpa [Place.advance] using h
  | cons c cs ih =>
      simpa [Place.advance] using ih (h.step c)

theorem advanceBlank
    (h : p.Behind before) (cs : List Char) :
    (p.advanceBlank cs).Behind (before ++ cs) := by
  induction cs generalizing p before with
  | nil =>
      simpa [Place.advanceBlank] using h
  | cons c cs ih =>
      simpa [Place.advanceBlank] using ih (h.stepBlank c)

end Place.Behind

/-! ### One token after another -/

/-- A token that stands at the start of a text, with its text and what follows. -/
inductive TokenAt (inner : List Char → TokenResult) (p : Place) :
    List Char → Token → List Char → Prop
  | quoted {text rest : List Char} {token : Token}
      (h : quotedToken inner p (text ++ rest) = .ok (token, rest)) :
      TokenAt inner p ('"' :: text) token rest
  | lexeme {text rest : List Char} {token : Token} (hne : text ≠ [])
      (hquote : ∀ r, text ≠ '"' :: r)
      (h : lexeme (text ++ rest) = ⟨text, rest, .ok token⟩) :
      TokenAt inner p text token rest

/-- What is read of a text from a place on: its tokens, and the place of its end. -/
inductive Tokenized (inner : List Char → TokenResult) :
    Place → List Char → List LocatedToken → Place → Prop
  | last {p : Place} {blank : List Char} (hblank : blankText .code blank = (blank, [])) :
      Tokenized inner p blank [] (p.advanceBlank blank)
  | token {p q : Place} {blank text rest : List Char} {token : Token} {ts : List LocatedToken}
      (hblank : blankText .code (blank ++ (text ++ rest)) = (blank, text ++ rest))
      (htoken : TokenAt inner (p.advanceBlank blank) text token rest)
      (hrest : Tokenized inner ((p.advanceBlank blank).advance text) rest ts q) :
      Tokenized inner p (blank ++ (text ++ rest))
        ((token, Span.ofText (p.advanceBlank blank) text) :: ts) q

variable {inner inner' : List Char → TokenResult} {p q : Place} {cs text rest : List Char}
variable {token : Token} {ts : List LocatedToken} {acc : Reading} {fuel : Nat}

theorem TokenAt.ne_nil
    (h : TokenAt inner p text token rest) :
    text ≠ [] := by
  cases h with
  | quoted _ =>
      exact List.cons_ne_nil _ _
  | lexeme hne _ _ =>
      exact hne

/-- The place of the end is behind all of the text. -/
theorem Tokenized.behind
    {before : List Char} (h : Tokenized inner p cs ts q) (hp : p.Behind before) :
    q.Behind (before ++ cs) := by
  induction h generalizing before with
  | last hblank =>
      exact hp.advanceBlank _
  | token hblank htoken hrest ih =>
      simpa using ih ((hp.advanceBlank _).advance _)

theorem isLexeme_of_lexeme
    (hne : text ≠ []) (h : lexeme (text ++ rest) = ⟨text, rest, .ok token⟩) :
    IsLexeme (text ++ rest) ⟨text, rest, .ok token⟩ := by
  cases text with
  | nil =>
      exact absurd rfl hne
  | cons c text =>
      exact h ▸ isLexeme_lexeme c (text ++ rest)

section ReadAll

variable {blank : List Char}

theorem readAll_last
    (hblank : blankText .code cs = (blank, [])) :
    readAll inner (fuel + 1) cs p acc = (acc, p.advanceBlank blank) := by
  rw [readAll, hblank]

theorem readAll_quote
    {r : List Char} (hblank : blankText .code cs = (blank, '"' :: r)) :
    readAll inner (fuel + 1) cs p acc =
      match quotedToken inner (p.advanceBlank blank) r with
      | .ok (token, rest) =>
        let text := ('"' :: r).take (r.length + 1 - rest.length)
        readAll inner fuel rest ((p.advanceBlank blank).advance text)
          { acc with tokens := (token, Span.ofText (p.advanceBlank blank) text) :: acc.tokens }
      | .error e =>
        readAll inner fuel (('"' :: r).dropWhile (· != '\n'))
          ((p.advanceBlank blank).advanceBlank (('"' :: r).takeWhile (· != '\n')))
          { acc with errors := e :: acc.errors } := by
  rw [readAll, hblank]
  rfl

theorem readAll_quoted
    (hblank : blankText .code cs = (blank, '"' :: (text ++ rest)))
    (h : quotedToken inner (p.advanceBlank blank) (text ++ rest) = .ok (token, rest)) :
    readAll inner (fuel + 1) cs p acc =
      readAll inner fuel rest ((p.advanceBlank blank).advance ('"' :: text))
        { acc with
          tokens := (token, Span.ofText (p.advanceBlank blank) ('"' :: text)) :: acc.tokens } := by
  have htake : ('"' :: (text ++ rest)).take ((text ++ rest).length + 1 - rest.length) =
      '"' :: text := by
    have hlength : (text ++ rest).length + 1 - rest.length = ('"' :: text).length := by
      simp only [List.length_append, List.length_cons]
      omega
    rw [hlength, ← List.cons_append, List.take_left]
  rw [readAll_quote hblank, h]
  dsimp only
  rw [htake]

theorem readAll_lexeme
    {r : List Char} {c : Char} (hblank : blankText .code cs = (blank, c :: r)) (hquote : c ≠ '"') :
    readAll inner (fuel + 1) cs p acc =
      readAll inner fuel (lexeme (c :: r)).rest
        ((p.advanceBlank blank).advance (lexeme (c :: r)).taken)
        (match (lexeme (c :: r)).token with
          | .ok t =>
            { acc with
              tokens := (t, Span.ofText (p.advanceBlank blank) (lexeme (c :: r)).taken) ::
                acc.tokens }
          | .error cause =>
            { acc with
              errors := ⟨cause, Span.ofText (p.advanceBlank blank) (lexeme (c :: r)).taken⟩ ::
                acc.errors }) := by
  rw [readAll, hblank]
  dsimp only
  split
  · next heq =>
      cases heq
  · next heq =>
      cases heq
      exact absurd rfl hquote
  · rfl

end ReadAll

/-- The reading finds what is there. -/
theorem Tokenized.readAll_eq
    (h : Tokenized inner p cs ts q) (hfuel : cs.length < fuel) (acc : Reading) :
    readAll inner fuel cs p acc = (⟨ts.reverse ++ acc.tokens, acc.errors⟩, q) := by
  induction h generalizing fuel acc with
  | @last p blank hblank =>
      cases fuel with
      | zero =>
          cases hfuel
      | succ fuel =>
          exact readAll_last hblank
  | @token p q blank text rest token ts hblank htoken hrest ih =>
      cases fuel with
      | zero =>
          cases hfuel
      | succ fuel =>
          have hshorter : rest.length < fuel := by
            have := List.length_pos_iff.mpr htoken.ne_nil
            simp only [List.length_append] at hfuel
            omega
          cases htoken with
          | quoted hquoted =>
              rw [readAll_quoted hblank hquoted, ih hshorter]
              simp
          | lexeme hne hquote hlexeme =>
              cases text with
              | nil =>
                  exact absurd rfl hne
              | cons c text =>
                  have hc : c ≠ '"' := fun hc => hquote text (hc ▸ rfl)
                  rw [List.cons_append] at hblank hlexeme ⊢
                  rw [readAll_lexeme hblank hc, hlexeme, ih hshorter]
                  simp

/-- The text that a string takes, with its closing quote. -/
theorem exists_text_of_quotedToken
    {r : List Char} (h : quotedToken inner p r = .ok (token, rest)) :
    ∃ text, r = text ++ rest := by
  obtain ⟨hclosed, -⟩ := quotedToken_eq_ok_iff.mp h
  refine ⟨(quotedParts r).1.flatMap RawPart.chars ++ ['"'], ?_⟩
  rw [List.append_assoc]
  exact (append_of_closed hclosed).symm

/-- A round reads a token, or records an error and goes on further behind. -/
theorem readAll_round
    {blank r : List Char} {c : Char} (hblank : blankText .code cs = (blank, c :: r))
    (inner : List Char → TokenResult) (fuel : Nat) (p : Place) (acc : Reading) :
    (∃ text rest token, text ++ rest = c :: r ∧
      TokenAt inner (p.advanceBlank blank) text token rest ∧
      readAll inner (fuel + 1) cs p acc =
        readAll inner fuel rest ((p.advanceBlank blank).advance text)
          { acc with tokens := (token, Span.ofText (p.advanceBlank blank) text) :: acc.tokens }) ∨
    ∃ e rest q, rest.length ≤ r.length ∧
      readAll inner (fuel + 1) cs p acc =
        readAll inner fuel rest q { acc with errors := e :: acc.errors } := by
  by_cases hquote : c = '"'
  · subst hquote
    cases hquoted : quotedToken inner (p.advanceBlank blank) r with
    | ok found =>
        obtain ⟨token, rest⟩ := found
        obtain ⟨text, rfl⟩ := exists_text_of_quotedToken hquoted
        exact .inl ⟨_, rest, token, rfl, .quoted hquoted, readAll_quoted hblank hquoted⟩
    | error e =>
        have hread : readAll inner (fuel + 1) cs p acc = _ := readAll_quote hblank
        rw [hquoted] at hread
        exact .inr ⟨e, _, _, (r.dropWhile_suffix (· != '\n')).length_le, hread⟩
  · have hlexeme := isLexeme_lexeme c r
    have hread : readAll inner (fuel + 1) cs p acc = _ := readAll_lexeme hblank hquote
    obtain ⟨z, hz⟩ := hlexeme.taken_eq_cons
    have happend := hlexeme.append
    cases hl : lexeme (c :: r) with
    | mk text rest outcome =>
        rw [hl] at hz happend hread
        dsimp only at hz happend hread
        subst hz
        cases outcome with
        | ok token =>
            have hne (r' : List Char) : c :: z ≠ '"' :: r' := fun h => hquote (List.cons.inj h).1
            have htoken : TokenAt inner (p.advanceBlank blank) (c :: z) token rest :=
              .lexeme (List.cons_ne_nil _ _) hne (happend ▸ hl)
            exact .inl ⟨_, rest, token, happend, htoken, hread⟩
        | error cause =>
            have hr : z ++ rest = r := (List.cons.inj happend).2
            refine .inr ⟨_, rest, _, ?_, hread⟩
            rw [← hr, List.length_append]
            exact Nat.le_add_left _ _

/-- What the reading finds is there, if nothing is wrong with the text. -/
theorem tokenized_of_readAll
    (hfuel : cs.length < fuel) (herrors : (readAll inner fuel cs p acc).1.errors = []) :
    acc.errors = [] ∧
      ∃ ts, Tokenized inner p cs ts (readAll inner fuel cs p acc).2 ∧
        (readAll inner fuel cs p acc).1.tokens = ts.reverse ++ acc.tokens := by
  induction fuel generalizing cs p acc with
  | zero =>
      cases hfuel
  | succ fuel ih =>
      have happend := blankText_append .code cs
      cases hblank : blankText .code cs with
      | mk blank left =>
          rw [hblank] at happend
          dsimp only at happend
          subst happend
          cases left with
          | nil =>
              rw [readAll_last hblank] at herrors ⊢
              rw [List.append_nil] at hblank ⊢
              exact ⟨herrors, [], .last hblank, rfl⟩
          | cons c r =>
              simp only [List.length_append, List.length_cons] at hfuel
              rcases readAll_round hblank inner fuel p acc with
                ⟨text, rest, token, htext, htoken, hread⟩ | ⟨e, rest, q, hle, hread⟩
              · have hshorter : rest.length < fuel := by
                  have hpos := List.length_pos_iff.mpr htoken.ne_nil
                  have hlength := congrArg List.length htext
                  simp only [List.length_append, List.length_cons] at hlength
                  omega
                rw [hread] at herrors ⊢
                obtain ⟨hacc, ts, hrest, htokens⟩ := ih hshorter herrors
                rw [← htext] at hblank ⊢
                refine ⟨hacc, _, .token hblank htoken hrest, ?_⟩
                rw [htokens]
                simp
              · rw [hread] at herrors
                cases (ih (by omega) herrors).1

/-- What is read of a text depends on what is read of shorter texts. -/
theorem readAll_congr
    (hinner : ∀ hole, hole.length < cs.length → inner hole = inner' hole)
    (fuel : Nat) (p : Place) (acc : Reading) :
    readAll inner fuel cs p acc = readAll inner' fuel cs p acc := by
  induction fuel generalizing cs p acc with
  | zero =>
      rfl
  | succ fuel ih =>
      have happend := blankText_append .code cs
      cases hblank : blankText .code cs with
      | mk blank left =>
          rw [hblank] at happend
          dsimp only at happend
          subst happend
          have hfurther {rest : List Char} (hle : rest.length ≤ left.length) (p : Place)
              (acc : Reading) :
              readAll inner fuel rest p acc = readAll inner' fuel rest p acc := by
            refine ih (fun hole hlt => hinner hole ?_) p acc
            rw [List.length_append]
            omega
          cases left with
          | nil =>
              rw [readAll_last hblank, readAll_last hblank]
          | cons c r =>
              by_cases hquote : c = '"'
              · subst hquote
                have hquoted : quotedToken inner (p.advanceBlank blank) r =
                    quotedToken inner' (p.advanceBlank blank) r :=
                  quotedToken_congr (fun hole hlt => hinner hole (by simp; omega)) _
                rw [readAll_quote hblank, readAll_quote hblank, ← hquoted]
                cases hread : quotedToken inner (p.advanceBlank blank) r with
                | ok found =>
                    obtain ⟨token, rest⟩ := found
                    obtain ⟨text, rfl⟩ := exists_text_of_quotedToken hread
                    exact hfurther (by simp; omega) _ _
                | error e =>
                    exact hfurther (('"' :: r).dropWhile_suffix (· != '\n')).length_le _ _
              · have hlength := congrArg List.length (isLexeme_lexeme c r).append
                rw [readAll_lexeme hblank hquote, readAll_lexeme hblank hquote]
                exact hfurther (by rw [← hlength, List.length_append]; omega) _ _

/-- Nesting deeper than a text is long makes no difference. -/
theorem tokenizeNested_eq
    {depth depth' : Nat} (hdepth : cs.length < depth) (hdepth' : cs.length < depth') :
    tokenizeNested depth cs = tokenizeNested depth' cs := by
  induction depth generalizing depth' cs with
  | zero =>
      cases hdepth
  | succ depth ih =>
      cases depth' with
      | zero =>
          cases hdepth'
      | succ depth' =>
          have hread : readAll (tokenizeNested depth) (cs.length + 1) cs .origin ⟨[], []⟩ =
              readAll (tokenizeNested depth') (cs.length + 1) cs .origin ⟨[], []⟩ :=
            readAll_congr (fun hole hlt => ih (by omega) (by omega)) _ _ _
          rw [tokenizeNested, tokenizeNested, hread]

/-- What is read of a text without an error. -/
theorem tokenizeNested_eq_ok_iff
    {depth : Nat} :
    tokenizeNested (depth + 1) cs = .ok ts ↔
      ∃ us q, Tokenized (tokenizeNested depth) .origin cs us q ∧
        ts = us ++ [(.eof, Span.atPlace q)] := by
  rw [tokenizeNested]
  constructor
  · intro h
    split at h
    · next herrors =>
        obtain ⟨-, us, hus, htokens⟩ :=
          tokenized_of_readAll (Nat.lt_succ_self _) (List.isEmpty_iff.mp herrors)
        cases h
        exact ⟨us, _, hus, by rw [htokens]; simp⟩
    · cases h
  · rintro ⟨us, q, hus, rfl⟩
    rw [hus.readAll_eq (Nat.lt_succ_self _)]
    simp

/-- What is read of a source without an error: one token after another, and the end. -/
theorem tokenize_eq_ok_iff
    {source : String} :
    tokenize source = .ok ts ↔
      ∃ us q, Tokenized (tokenizeNested source.toList.length) .origin source.toList us q ∧
        ts = us ++ [(.eof, Span.atPlace q)] :=
  tokenizeNested_eq_ok_iff

end ScriptEngine
