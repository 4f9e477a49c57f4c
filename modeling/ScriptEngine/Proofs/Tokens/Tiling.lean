import Mathlib
import ScriptEngine.Proofs.Tokens.Reading

/-!
# Tokens tile their source

The tokens of a source and the blanks between them are the source: nothing is left out, nothing is
read twice, and every token is what its text alone would give (`tokenize_tiles`).
-/

namespace ScriptEngine

/-! ### The law -/

/-- The text of a token alone gives that token, and the end. -/
def Alone (text : List Char) (token : Token) : Prop :=
  ∃ token' span stop, tokenize (String.ofList text) = .ok [(token', span), (.eof, stop)] ∧
    token.Alike token'

/-- A span is the stretch of a piece of text, with the line of its start. -/
structure Span.Covers (s : Span) (before text : List Char) : Prop where
  start : s.start = (String.ofList before).utf8ByteSize
  stop : s.stop = (String.ofList (before ++ text)).utf8ByteSize
  line : s.line = 1 + before.count '\n'

/-- What follows a text, cut into blanks and the texts of tokens. -/
inductive Tiles : List Char → List Char → List LocatedToken → Prop
  | last {before blank : List Char} {s : Span} (hblank : Blanks true blank)
      (hspan : s.Covers (before ++ blank) []) :
      Tiles before blank [(.eof, s)]
  | token {before blank text rest : List Char} {token : Token} {s : Span} {ts : List LocatedToken}
      (hblank : Blanks false blank) (htext : text ≠ []) (htoken : token ≠ .eof)
      (hspan : s.Covers (before ++ blank) text) (halone : Alone text token)
      (hrest : Tiles (before ++ blank ++ text) rest ts) :
      Tiles before (blank ++ text ++ rest) ((token, s) :: ts)

/-- The tokens of a source tile it. -/
structure Tiling (source : String) (ts : List LocatedToken) : Prop where
  /-- The source is made of blanks and the texts of the tokens. -/
  tiles : Tiles [] source.toList ts
  /-- Each token ends before the next one begins. -/
  ordered : ts.Pairwise fun t u => t.2.stop ≤ u.2.start
  /-- Tokens take up some of the source. -/
  taken : ∀ t ∈ ts, t.1 ≠ .eof → t.2.start < t.2.stop
  /-- The end comes last, and stands at the end of the source. -/
  ended : ∃ us s, ts = us ++ [(.eof, s)] ∧ (∀ t ∈ us, t.1 ≠ .eof) ∧
    s.start = source.utf8ByteSize ∧ s.stop = source.utf8ByteSize

variable {before blank text rest cs : List Char} {token : Token} {ts : List LocatedToken}
variable {p q : Place} {s : Span} {depth : Nat}

theorem Place.Behind.covers
    (h : p.Behind before) (text : List Char) :
    (Span.ofText p text).Covers before text where
  start := h.offset.trans (byteLength_eq before)
  stop := by
    rw [← byteLength_eq, byteLength_append, ← h.offset]
    rfl
  line := h.line

/-! ### A token on its own -/

/-- A string is the same token without what follows it. -/
theorem quotedToken_alone
    (h : quotedToken (tokenizeNested depth) p (text ++ rest) = .ok (token, rest))
    (hline : 1 ≤ p.line) (hdepth : text.length < depth) :
    ∃ token', quotedToken (tokenizeNested (text.length + 1)) .origin text = .ok (token', []) ∧
      token.Alike token' := by
  obtain ⟨hclosed, hvalue⟩ := quotedToken_eq_ok_iff.mp h
  have hparts := quotedParts_alone hclosed
  have hinner (hole : List Char) (hmem : .hole hole ∈ (quotedParts (text ++ rest)).1) :
      tokenizeNested depth hole = tokenizeNested (text.length + 1) hole := by
    have hlt : hole.length < text.length := length_lt_of_hole (by rwa [hparts])
    exact tokenizeNested_eq (by omega) (by omega)
  have hstart : 1 ≤ Place.origin.line := Nat.le_refl 1
  obtain ⟨token', hvalue', halike⟩ := quotedValue_alike hline hinner hvalue hstart
  exact ⟨token', quotedToken_eq_ok_iff.mpr (by rw [hparts]; exact ⟨rfl, hvalue'⟩), halike⟩

namespace TokenAt

theorem alone
    (h : TokenAt (tokenizeNested depth) p text token rest) (hline : 1 ≤ p.line)
    (hdepth : text.length ≤ depth) :
    ∃ token', TokenAt (tokenizeNested text.length) .origin text token' [] ∧ token.Alike token' := by
  cases h with
  | @quoted text _ _ hquoted =>
      obtain ⟨token', hquoted', halike⟩ := quotedToken_alone hquoted hline hdepth
      exact ⟨token', .quoted (by rwa [List.append_nil]), halike⟩
  | lexeme hne hquote hlexeme =>
      have halone := (isLexeme_of_lexeme hne hlexeme).alone rfl
      refine ⟨token, .lexeme hne hquote ?_, .refl token⟩
      rw [List.append_nil]
      exact halone

theorem ne_eof
    (h : TokenAt (tokenizeNested depth) p text token rest) :
    token ≠ .eof := by
  cases h with
  | quoted hquoted =>
      obtain ⟨-, hvalue⟩ := quotedToken_eq_ok_iff.mp hquoted
      rcases exists_string hvalue with ⟨s, rfl⟩ | ⟨parts, rfl⟩
      · simp
      · simp
  | lexeme hne hquote hlexeme =>
      exact (isLexeme_of_lexeme hne hlexeme).ne_eof rfl

theorem tokenize_alone
    (h : TokenAt (tokenizeNested depth) p text token rest) (hline : 1 ≤ p.line)
    (hdepth : text.length ≤ depth)
    (hblank : blankText .code (text ++ rest) = ([], text ++ rest)) :
    Alone text token := by
  obtain ⟨token', htoken, halike⟩ := h.alone hline hdepth
  have hblank' : blankText .code ([] ++ (text ++ [])) = ([], text ++ []) := by
    simpa using blankText_of_front hblank
  have hread := Tokenized.token (p := .origin) hblank' htoken (.last rfl)
  rw [List.nil_append, List.append_nil] at hread
  rw [← String.toList_ofList (l := text)] at hread
  have hok := tokenize_eq_ok_iff.mpr ⟨_, _, hread, rfl⟩
  exact ⟨token', _, _, hok, halike⟩

end TokenAt

/-! ### Whole sources -/

theorem Tokenized.tiles
    (h : Tokenized (tokenizeNested depth) p cs ts q) (hp : p.Behind before)
    (hdepth : cs.length ≤ depth) :
    Tiles before cs (ts ++ [(.eof, Span.atPlace q)]) := by
  induction h generalizing before with
  | @last p blank hblank =>
      have htakes := blankText_takes .code blank
      rw [hblank] at htakes
      exact .last htakes ((hp.advanceBlank blank).covers [])
  | @token p q blank text rest token ts hblank htoken hrest ih =>
      have hplace := hp.advanceBlank blank
      have htakes := blankText_takes .code (blank ++ (text ++ rest))
      have hleft := blankText_rest .code (blank ++ (text ++ rest))
      rw [hblank] at htakes hleft
      have hsome : (text ++ rest).isEmpty = false :=
        List.isEmpty_eq_false_iff.mpr (List.append_ne_nil_of_left_ne_nil htoken.ne_nil rest)
      dsimp only at htakes hleft
      rw [hsome] at htakes
      simp only [List.length_append] at hdepth
      rw [← List.append_assoc]
      refine .token htakes htoken.ne_nil htoken.ne_eof (hplace.covers text) ?_ ?_
      · exact htoken.tokenize_alone (by rw [hplace.line]; omega) (by omega) hleft
      · exact ih (hplace.advance text) (by omega)

namespace Span.Covers

theorem stop_eq
    (h : s.Covers before text) :
    s.stop = s.start + (String.ofList text).utf8ByteSize := by
  rw [h.stop, h.start, String.ofList_append, String.utf8ByteSize_append]

theorem start_lt_stop
    (h : s.Covers before text) (htext : text ≠ []) :
    s.start < s.stop := by
  have hpos := byteLength_pos htext
  rw [byteLength_eq] at hpos
  rw [h.stop_eq]
  omega

/-- What stands behind a text starts no earlier than the text ends. -/
theorem size_le_start
    (h : s.Covers (before ++ blank) text) :
    (String.ofList before).utf8ByteSize ≤ s.start := by
  rw [h.start, String.ofList_append, String.utf8ByteSize_append]
  exact Nat.le_add_right _ _

end Span.Covers

namespace Tiles

theorem ordered
    (h : Tiles before cs ts) :
    (ts.Pairwise fun t u => t.2.stop ≤ u.2.start) ∧
      ∀ t ∈ ts, (String.ofList before).utf8ByteSize ≤ t.2.start := by
  induction h with
  | last hblank hspan =>
      refine ⟨List.pairwise_singleton _ _, fun t ht => ?_⟩
      cases List.mem_singleton.mp ht
      exact hspan.size_le_start
  | token hblank htext htoken hspan halone hrest ih =>
      have hstart := hspan.size_le_start
      have hstop := hspan.start_lt_stop htext
      have hlater := ih.2
      rw [← hspan.stop] at hlater
      refine ⟨List.pairwise_cons.mpr ⟨hlater, ih.1⟩, fun t ht => ?_⟩
      rcases List.mem_cons.mp ht with rfl | ht
      · exact hstart
      · have := hlater t ht
        omega

theorem taken
    (h : Tiles before cs ts) :
    ∀ t ∈ ts, t.1 ≠ .eof → t.2.start < t.2.stop := by
  induction h with
  | last hblank hspan =>
      intro t ht hne
      cases List.mem_singleton.mp ht
      exact absurd rfl hne
  | token hblank htext htoken hspan halone hrest ih =>
      intro t ht hne
      rcases List.mem_cons.mp ht with rfl | ht
      · exact hspan.start_lt_stop htext
      · exact ih t ht hne

/-- The end comes last, and stands behind all of the text. -/
theorem ended
    (h : Tiles before cs ts) :
    ∃ us s, ts = us ++ [(.eof, s)] ∧ (∀ t ∈ us, t.1 ≠ .eof) ∧
      s.start = (String.ofList (before ++ cs)).utf8ByteSize ∧
        s.stop = (String.ofList (before ++ cs)).utf8ByteSize := by
  induction h with
  | last hblank hspan =>
      refine ⟨[], _, rfl, by simp, hspan.start, ?_⟩
      simpa using hspan.stop
  | token hblank htext htoken hspan halone hrest ih =>
      obtain ⟨us, s, rfl, hus, hstart, hstop⟩ := ih
      refine ⟨_ :: us, s, rfl, ?_, by simpa using hstart, by simpa using hstop⟩
      intro t ht
      rcases List.mem_cons.mp ht with rfl | ht
      · exact htoken
      · exact hus t ht

end Tiles

/-- The tokens of a source, if nothing is wrong with it, tile it. -/
theorem tokenize_tiles
    {source : String} (h : tokenize source = .ok ts) :
    Tiling source ts := by
  obtain ⟨us, q, hus, rfl⟩ := tokenize_eq_ok_iff.mp h
  have htiles := hus.tiles .origin (Nat.le_refl _)
  exact ⟨htiles, htiles.ordered.1, htiles.taken, by simpa using htiles.ended⟩

/-- A name, a line comment, a string with a hole on the next line, and a comment that is open. -/
theorem tokenize_tiles_template :
    ∃ ts, tokenize "x // one\n\"a#\x7by\x7d\" /* two" = .ok ts ∧
      ts.map Prod.snd = [⟨0, 1, 1, 1⟩, ⟨9, 16, 2, 1⟩, ⟨23, 23, 2, 15⟩] ∧
      Tiling "x // one\n\"a#\x7by\x7d\" /* two" ts := by
  have hread : tokenize "x // one\n\"a#\x7by\x7d\" /* two" =
      .ok [(.identifier "x", ⟨0, 1, 1, 1⟩),
        (.template [.text "a", .hole [(.identifier "y", ⟨13, 14, 2, 1⟩),
          (.eof, ⟨14, 14, 2, 2⟩)]], ⟨9, 16, 2, 1⟩),
        (.eof, ⟨23, 23, 2, 15⟩)] := by
    cbv
  exact ⟨_, hread, rfl, tokenize_tiles hread⟩

end ScriptEngine
