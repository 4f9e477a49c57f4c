import Mathlib
import ScriptEngine.Proofs.Tokens.Interpolation
import ScriptEngine.Proofs.Tokens.Tiling

/-!
# Positions inside of strings

The text of a hole is read as a text of its own, from offset 0 and line 1 on.  The string that holds
it moves the tokens of the hole to where the hole stands in the text of the string, and takes them to
the line of its opening quote; the tokens in the strings of the hole it leaves as they are, and the
errors of the hole as well.

So the span of a token in a hole is a stretch of the source just if the hole is not in another one
and no newline stands in the string before it, and an error is reported where it stands in the source
just if it is not in a hole, with the line that it stands on if no newline of its string comes before
it (`tokenize_positions`).
-/

namespace ScriptEngine

/-! ### The law -/

/-- A span is the stretch of a piece of text, with its line but for some newlines before it. -/
structure Span.CoversBut (s : Span) (missed before text : List Char) : Prop where
  start : s.start = byteLength before
  stop : s.stop = byteLength (before ++ text)
  line : s.line + missed.count '\n' = 1 + before.count '\n'

/-- A hole in a string, as it stands in a text. -/
structure Hole where
  /-- What stands before the string. -/
  before : List Char
  /-- What stands in the string before the hole. -/
  lead : List Char
  /-- What stands in the hole. -/
  text : List Char
  /-- The tokens that the string has for the hole. -/
  tokens : List LocatedToken

/-- What stands before the text of a hole. -/
def Hole.front (hole : Hole) : List Char :=
  hole.before ++ '"' :: (hole.lead ++ ['#', '{'])

/-- The holes in the strings of a text that can be read. -/
inductive HasHole : List Char → Hole → Prop
  | mk {before body text : List Char} {ts tokens : List LocatedToken} {parts : List TemplatePart}
      {s : Span} {front back : List RawPart}
      (hread : tokenize (String.ofList (before ++ '"' :: body)) = .ok ts)
      (hstring : (.template parts, s) ∈ ts) (hstart : s.start = byteLength before)
      (hparts : (quotedParts body).1 = front ++ .hole text :: back)
      (htokens : parts[front.length]? = some (.hole tokens)) :
      HasHole (before ++ '"' :: body) ⟨before, front.flatMap RawPart.chars, text, tokens⟩

/-- The holes of a text at every depth, with what stands before the text that each is a hole of. -/
inductive Embeds : List Char → Nat → List Char → Hole → Prop
  | here {cs : List Char} {hole : Hole} (h : HasHole cs hole) :
      Embeds cs 1 [] hole
  | deeper {cs outer : List Char} {hole hole' : Hole} {depth : Nat} (h : HasHole cs hole)
      (hinner : Embeds hole.text depth outer hole') :
      Embeds cs (depth + 1) (hole.front ++ outer) hole'

/-- The tokens of the holes among tokens, at every depth. -/
inductive Recorded : List LocatedToken → Nat → List LocatedToken → Prop
  | here {ts us : List LocatedToken} {parts : List TemplatePart}
      (hstring : .template parts ∈ ts.map Prod.fst) (hhole : .hole us ∈ parts) :
      Recorded ts 1 us
  | deeper {ts us vs : List LocatedToken} {parts : List TemplatePart} {depth : Nat}
      (hstring : .template parts ∈ ts.map Prod.fst) (hhole : .hole us ∈ parts)
      (hinner : Recorded us depth vs) :
      Recorded ts (depth + 1) vs

/-- A token is what its text gives; the end has none. -/
def Reads (text : List Char) (token : Token) : Prop :=
  Alone text token ∨ text = [] ∧ token = .eof

/-- The tokens of a hole stand in its text, and their spans count from the text that it is a hole of,
less the newlines in the string before it. -/
structure HolePositions (cs : List Char) (depth : Nat) (outer : List Char) (hole : Hole) :
    Prop where
  embeds : Embeds cs depth outer hole
  stands : ∃ rest, cs = outer ++ (hole.front ++ (hole.text ++ '}' :: rest))
  tokens : ∀ t ∈ hole.tokens, ∃ before text rest, hole.text = before ++ (text ++ rest) ∧
    Reads text t.1 ∧ t.2.CoversBut hole.lead (hole.front ++ before) text ∧
      (t.2.Covers (outer ++ (hole.front ++ before)) text ↔ depth = 1 ∧ '\n' ∉ hole.lead)

/-- Where something wrong stands. -/
structure Spot where
  /-- What stands before the text of the innermost hole around it. -/
  outer : List Char
  /-- What stands before it in that text. -/
  before : List Char
  /-- The stretch that is wrong. -/
  text : List Char
  /-- What stands before it in its own string. -/
  lead : List Char

/-- What is wrong in a text, and in how many holes it stands. -/
inductive Misread : List Char → LexCause → Nat → Spot → Prop
  | lexeme {before text rest : List Char} {cause : LexCause}
      (h : lexeme (text ++ rest) = ⟨text, rest, .error cause⟩) :
      Misread (before ++ (text ++ rest)) cause 0 ⟨[], before, text, []⟩
  | string {before body : List Char} (h : (quotedParts body).2 = .unterminatedString) :
      Misread (before ++ '"' :: body) .unterminatedString 0 ⟨[], before, '"' :: body, []⟩
  | hole {before body text : List Char} (h : (quotedParts body).2 = .unterminatedHole)
      (hbody : (quotedParts body).1.flatMap RawPart.chars ++ text = body) :
      Misread (before ++ '"' :: body) .unterminatedInterpolation 0
        ⟨[], before ++ '"' :: (quotedParts body).1.flatMap RawPart.chars, text,
          (quotedParts body).1.flatMap RawPart.chars⟩
  | inner {before body text : List Char} {front back : List RawPart} {cause : LexCause}
      {depth : Nat} {spot : Spot} (hparts : (quotedParts body).1 = front ++ .hole text :: back)
      (h : Misread text cause depth spot) :
      Misread (before ++ '"' :: body) cause (depth + 1)
        { spot with
          outer := Hole.front ⟨before, front.flatMap RawPart.chars, text, []⟩ ++ spot.outer }

/-- An error is about something wrong in the text, and its span counts from the text of the innermost
hole around it, less the newlines in its own string. -/
structure ErrorPosition (cs : List Char) (e : LexError) (depth : Nat) (spot : Spot) : Prop where
  misread : Misread cs e.cause depth spot
  stands : ∃ rest, cs = spot.outer ++ (spot.before ++ (spot.text ++ rest))
  covers : e.span.CoversBut spot.lead spot.before spot.text
  covers_iff : e.span.Covers (spot.outer ++ spot.before) spot.text ↔
    depth = 0 ∧ '\n' ∉ spot.lead

/-- What the spans in and about the holes of a source say. -/
structure Positions (source : String) : Prop where
  tokens : ∀ ts depth us, tokenize source = .ok ts → Recorded ts depth us →
    ∃ outer hole, hole.tokens = us ∧ HolePositions source.toList depth outer hole
  errors : ∀ es, tokenize source = .error es →
    ∀ e ∈ es, ∃ depth spot, ErrorPosition source.toList e depth spot

variable {cs outer before text rest missed body : List Char} {ts us own : List LocatedToken}
variable {parts : List TemplatePart} {ps front back : List RawPart} {hole : Hole} {s : Span}
variable {inner : List Char → TokenResult} {p q : Place} {depth line offset : Nat} {e : LexError}
variable {cause : LexCause} {spot : Spot}

/-! ### Spans -/

theorem byteLength_eq_zero_iff :
    byteLength cs = 0 ↔ cs = [] := by
  constructor
  · intro h
    by_contra hne
    exact absurd h (Nat.ne_of_gt (byteLength_pos hne))
  · rintro rfl
    rfl

namespace Span

theorem Covers.coversBut
    (h : s.Covers before text) :
    s.CoversBut [] before text where
  start := h.start.trans (byteLength_eq before).symm
  stop := h.stop.trans (byteLength_eq _).symm
  line := h.line

/-- A span that counts from a text covers the same stretch of what is around it just if nothing
stands before the text, and no newline is missed. -/
theorem CoversBut.covers_iff
    (h : s.CoversBut missed before text) :
    s.Covers (outer ++ before) text ↔ outer = [] ∧ '\n' ∉ missed := by
  have hline := h.line
  constructor
  · intro hcovers
    have hstart := hcovers.start
    rw [← byteLength_eq, byteLength_append, h.start] at hstart
    have houter : outer = [] := byteLength_eq_zero_iff.mp (by omega)
    subst houter
    have hcount : s.line = 1 + before.count '\n' := hcovers.line
    exact ⟨rfl, List.count_eq_zero.mp (by omega)⟩
  · rintro ⟨rfl, hmissed⟩
    rw [List.count_eq_zero.mpr hmissed] at hline
    exact ⟨h.start.trans (byteLength_eq before), h.stop.trans (byteLength_eq _), hline⟩

end Span

theorem Hole.front_ne_nil
    (hole : Hole) :
    hole.front ≠ [] := by
  simp [Hole.front]

theorem Embeds.outer_eq_nil_iff
    (h : Embeds cs depth outer hole) :
    outer = [] ↔ depth = 1 := by
  cases h with
  | here =>
      simp
  | deeper h hinner =>
      have hdepth : ∀ {cs outer hole depth}, Embeds cs depth outer hole → depth ≠ 0 := by
        intro cs outer hole depth h
        cases h <;> simp
      simp [Hole.front_ne_nil, hdepth hinner]

theorem Misread.outer_eq_nil_iff
    (h : Misread cs cause depth spot) :
    spot.outer = [] ↔ depth = 0 := by
  cases h <;> simp [Hole.front_ne_nil]

/-! ### Where things stand -/

theorem chars_hole
    (text : List Char) :
    (RawPart.hole text).chars = ['#', '{'] ++ (text ++ ['}']) :=
  rfl

/-- A hole stands in the body of its string. -/
theorem exists_eq_of_hole
    (h : (quotedParts body).1 = front ++ .hole text :: back) :
    ∃ rest, body = front.flatMap RawPart.chars ++ (['#', '{'] ++ (text ++ '}' :: rest)) := by
  obtain ⟨tail, happend, -⟩ := quotedParts_append body
  refine ⟨back.flatMap RawPart.chars ++ tail, ?_⟩
  rw [← happend, h, List.flatMap_append, List.flatMap_cons, chars_hole]
  simp

/-- A hole stands behind its front. -/
theorem exists_eq_front
    (before : List Char) (h : (quotedParts body).1 = front ++ .hole text :: back)
    (tokens : List LocatedToken) :
    ∃ rest, before ++ '"' :: body =
      Hole.front ⟨before, front.flatMap RawPart.chars, text, tokens⟩ ++ (text ++ '}' :: rest) := by
  obtain ⟨rest, hbody⟩ := exists_eq_of_hole h
  refine ⟨rest, ?_⟩
  rw [hbody, Hole.front]
  simp

theorem HasHole.stands
    (h : HasHole cs hole) :
    ∃ rest, cs = hole.front ++ (hole.text ++ '}' :: rest) := by
  cases h with
  | mk hread hstring hstart hparts htokens =>
      exact exists_eq_front _ hparts _

theorem Embeds.stands
    (h : Embeds cs depth outer hole) :
    ∃ rest, cs = outer ++ (hole.front ++ (hole.text ++ '}' :: rest)) := by
  induction h with
  | here h =>
      exact h.stands
  | deeper h hinner ih =>
      obtain ⟨rest, hcs⟩ := h.stands
      obtain ⟨rest', htext⟩ := ih
      refine ⟨rest' ++ '}' :: rest, ?_⟩
      rw [hcs, htext]
      simp

theorem Misread.stands
    (h : Misread cs cause depth spot) :
    ∃ rest, cs = spot.outer ++ (spot.before ++ (spot.text ++ rest)) := by
  induction h with
  | @lexeme before text rest cause h =>
      exact ⟨rest, rfl⟩
  | string h =>
      exact ⟨[], by simp⟩
  | hole h hbody =>
      refine ⟨[], ?_⟩
      conv_lhs => rw [← hbody]
      simp
  | @inner before body text front back cause depth spot hparts h ih =>
      obtain ⟨rest, htext⟩ := ih
      obtain ⟨rest', hcs⟩ := exists_eq_front before hparts []
      refine ⟨rest ++ '}' :: rest', ?_⟩
      rw [hcs, htext]
      simp

/-! ### The tokens of a text -/

/-- The tokens of a text stand in it. -/
theorem Tiles.stands
    (h : Tiles before cs ts) :
    ∀ t ∈ ts, ∃ front text rest, before ++ cs = front ++ (text ++ rest) ∧ Reads text t.1 ∧
      t.2.Covers front text := by
  induction h with
  | @last before blank s hblank hspan =>
      intro t ht
      cases List.mem_singleton.mp ht
      exact ⟨before ++ blank, [], [], by simp, .inr ⟨rfl, rfl⟩, hspan⟩
  | @token before blank text rest token s ts hblank htext htoken hspan halone hrest ih =>
      intro t ht
      rcases List.mem_cons.mp ht with rfl | ht
      · exact ⟨before ++ blank, text, rest, by simp, .inl halone, hspan⟩
      · obtain ⟨front, text', rest', happend, hreads, hcovers⟩ := ih t ht
        exact ⟨front, text', rest', by rw [← happend]; simp, hreads, hcovers⟩

theorem tokenize_stands
    (h : tokenize (String.ofList cs) = .ok ts) :
    ∀ t ∈ ts, ∃ before text rest, cs = before ++ (text ++ rest) ∧ Reads text t.1 ∧
      t.2.Covers before text := by
  intro t ht
  have hstands := (tokenize_tiles h).tiles.stands t ht
  rwa [List.nil_append, String.toList_ofList] at hstands

/-- A template among the tokens of a text is what its string gives. -/
theorem Tokenized.of_template
    (h : Tokenized inner p cs ts q) (hp : p.Behind before)
    (hmem : (.template parts, s) ∈ ts) :
    ∃ front body place rest, before ++ cs = front ++ '"' :: body ∧ place.Behind front ∧
      s.start = byteLength front ∧ quotedToken inner place body = .ok (.template parts, rest) := by
  induction h generalizing before with
  | last hblank =>
      cases hmem
  | @token p q blank text rest token ts hblank htoken hrest ih =>
      have hplace := hp.advanceBlank blank
      rcases List.mem_cons.mp hmem with heq | hmem
      · cases heq
        cases htoken with
        | quoted hquoted =>
            exact ⟨before ++ blank, _, _, rest, by simp, hplace, hplace.offset, hquoted⟩
        | lexeme hne hquote hlexeme =>
            exact absurd rfl ((isLexeme_of_lexeme hne hlexeme).ne_template rfl)
      · obtain ⟨front, body, place, rest', happend, hstring⟩ := ih (hplace.advance text) hmem
        exact ⟨front, body, place, rest', by rw [← happend]; simp, hstring⟩

/-- The part of a template for a hole, and what was read of the hole. -/
theorem exists_hole_of_templateParts
    (h : templateParts inner line offset ps = .ok parts) (hmem : .hole us ∈ parts) :
    ∃ front text back, ps = front ++ .hole text :: back ∧
      parts[front.length]? = some (.hole us) ∧
      holeTokens inner line (offset + byteLength (front.flatMap RawPart.chars)) text = .ok us := by
  induction ps generalizing offset parts with
  | nil =>
      cases h
      cases hmem
  | cons part ps ih =>
      cases part with
      | text raw =>
          rw [templateParts_text] at h
          obtain ⟨parts, hps, rfl⟩ := map_eq_ok_iff.mp h
          obtain ⟨front, text, back, rfl, hpart, hread⟩ := ih hps (by simpa using hmem)
          refine ⟨.text raw :: front, text, back, rfl, hpart, ?_⟩
          rwa [List.flatMap_cons, RawPart.chars, byteLength_append, ← Nat.add_assoc]
      | hole cs =>
          rw [templateParts_hole] at h
          obtain ⟨vs, hvs, h⟩ := bind_eq_ok_iff.mp h
          obtain ⟨parts, hps, rfl⟩ := map_eq_ok_iff.mp h
          rcases List.mem_cons.mp hmem with heq | hmem
          · cases heq
            exact ⟨[], cs, ps, rfl, rfl, hvs⟩
          · obtain ⟨front, text, back, rfl, hpart, hread⟩ := ih hps hmem
            refine ⟨.hole cs :: front, text, back, rfl, hpart, ?_⟩
            have hsize : byteLength (RawPart.hole cs).chars = byteLength cs + 3 := by
              rw [chars_hole, byteLength_append, byteLength_append]
              show 2 + (byteLength cs + 1) = byteLength cs + 3
              omega
            rwa [List.flatMap_cons, byteLength_append, hsize, ← Nat.add_assoc, ← Nat.add_assoc]

theorem templateParts_of_quotedValue
    (h : quotedValue inner p ps = .ok (.template parts)) :
    templateParts inner p.line (p.offset + 1) ps = .ok parts := by
  fun_cases quotedValue inner p ps with
  | case1 | case2 =>
      cases h
  | case3 _ hempty hplain =>
      rw [quotedValue_template hempty hplain] at h
      obtain ⟨parts, hparts, heq⟩ := map_eq_ok_iff.mp h
      cases heq
      exact hparts

/-- A text is read in a hole as it is on its own. -/
theorem tokenizeNested_eq_tokenize
    (h : text.length < depth) :
    tokenizeNested depth text = tokenize (String.ofList text) := by
  rw [tokenize, String.toList_ofList]
  exact tokenizeNested_eq h (Nat.lt_succ_self _)

/-- Something is wrong with a text that cannot be read. -/
theorem tokenize_ne_error_nil
    (source : String) :
    tokenize source ≠ .error [] := by
  intro h
  have hne : tokenizeNested (source.toList.length + 1) source.toList ≠ .error [] := by
    rw [tokenizeNested]
    split
    · simp
    · next herrors =>
        simpa using herrors
  exact hne h

theorem byteLength_front
    (hole : Hole) :
    byteLength hole.front = byteLength hole.before + 1 + byteLength hole.lead + 2 := by
  have hquote : byteLength ['"'] = 1 := rfl
  have hmarks : byteLength ['#', '{'] = 2 := rfl
  rw [Hole.front, List.append_cons, byteLength_append, byteLength_append, byteLength_append,
    hquote, hmarks, ← Nat.add_assoc]

/-- The string of a hole has the tokens of its text for it, moved to behind the front of the hole and
to the line of the string. -/
theorem exists_hole
    (h : tokenize (String.ofList cs) = .ok ts) (hstring : .template parts ∈ ts.map Prod.fst)
    (hhole : .hole us ∈ parts) :
    ∃ hole own, HasHole cs hole ∧ hole.tokens = us ∧
      tokenize (String.ofList hole.text) = .ok own ∧
      us = own.map fun t =>
        (t.1, t.2.shift (byteLength hole.front) (1 + hole.before.count '\n')) := by
  obtain ⟨⟨_, s⟩, hmem, rfl⟩ := List.mem_map.mp hstring
  obtain ⟨vs, q, hvs, rfl⟩ := tokenize_eq_ok_iff.mp h
  rw [String.toList_ofList] at hvs
  have hmem' : (.template parts, s) ∈ vs := by simpa using hmem
  obtain ⟨before, body, place, rest, rfl, hplace, hstart, hquoted⟩ :=
    hvs.of_template .origin hmem'
  obtain ⟨-, hvalue⟩ := quotedToken_eq_ok_iff.mp hquoted
  have hparts := templateParts_of_quotedValue hvalue
  obtain ⟨front, text, back, hsplit, hpart, htokens⟩ := exists_hole_of_templateParts hparts hhole
  have hlt : text.length < body.length := length_lt_of_hole (by rw [hsplit]; simp)
  have hdepth : text.length < (before ++ '"' :: body).length := by
    simp
    omega
  rw [holeTokens, tokenizeNested_eq_tokenize hdepth] at htokens
  refine ⟨⟨before, front.flatMap RawPart.chars, text, us⟩, ?_⟩
  have hhas : HasHole (before ++ '"' :: body) ⟨before, front.flatMap RawPart.chars, text, us⟩ :=
    .mk h hmem hstart hsplit hpart
  split at htokens
  · next own hown =>
      cases htokens
      refine ⟨own, hhas, rfl, hown, ?_⟩
      rw [byteLength_front, hplace.line, hplace.offset]
  · cases htokens
  · next hnone =>
      exact absurd hnone (tokenize_ne_error_nil _)

/-! ### Positions of tokens -/

theorem count_front
    (hole : Hole) :
    hole.front.count '\n' = hole.before.count '\n' + hole.lead.count '\n' := by
  have hmarks : ['#', '{'].count '\n' = 0 := rfl
  rw [Hole.front, List.count_append, List.count_cons_of_ne (by decide), List.count_append, hmarks,
    Nat.add_zero]

/-- A token of a hole is moved to where it stands in the text that the hole is in, but for the
newlines that stand in the string before the hole. -/
theorem Span.Covers.shift
    (h : s.Covers before text) (hole : Hole) :
    (s.shift (byteLength hole.front) (1 + hole.before.count '\n')).CoversBut hole.lead
      (hole.front ++ before) text where
  start := by
    rw [Span.shift, h.start, ← byteLength_eq, byteLength_append, Nat.add_comm]
  stop := by
    rw [Span.shift, h.stop, ← byteLength_eq, List.append_assoc, byteLength_append hole.front]
    exact Nat.add_comm _ _
  line := by
    rw [Span.shift, h.line, List.count_append, count_front]
    dsimp only
    omega

namespace Recorded

/-- The tokens of a hole at some depth are those of its text, moved once. -/
theorem exists_embeds
    (h : Recorded ts depth us) (hread : tokenize (String.ofList cs) = .ok own)
    (hts : ts.map Prod.fst = own.map Prod.fst) :
    ∃ outer hole own, hole.tokens = us ∧ Embeds cs depth outer hole ∧
      tokenize (String.ofList hole.text) = .ok own ∧
      us = own.map fun t =>
        (t.1, t.2.shift (byteLength hole.front) (1 + hole.before.count '\n')) := by
  induction h generalizing cs own with
  | here hstring hhole =>
      obtain ⟨hole, own, hhas, htokens, hown, heq⟩ := exists_hole hread (hts ▸ hstring) hhole
      exact ⟨[], hole, own, htokens, .here hhas, hown, heq⟩
  | deeper hstring hhole hinner ih =>
      obtain ⟨hole, own, hhas, htokens, hown, heq⟩ := exists_hole hread (hts ▸ hstring) hhole
      obtain ⟨outer, hole', own', htokens', hembeds, hlaw⟩ := ih hown (by simp [heq])
      exact ⟨hole.front ++ outer, hole', own', htokens', .deeper hhas hembeds, hlaw⟩

theorem holePositions
    (h : Recorded ts depth us) (hread : tokenize (String.ofList cs) = .ok ts) :
    ∃ outer hole, hole.tokens = us ∧ HolePositions cs depth outer hole := by
  obtain ⟨outer, hole, own, rfl, hembeds, hown, heq⟩ := h.exists_embeds hread rfl
  refine ⟨outer, hole, rfl, hembeds, hembeds.stands, fun t ht => ?_⟩
  rw [heq] at ht
  obtain ⟨⟨token, s⟩, hmem, rfl⟩ := List.mem_map.mp ht
  obtain ⟨before, text, rest, htext, hreads, hcovers⟩ := tokenize_stands hown _ hmem
  have hmoved := hcovers.shift hole
  refine ⟨before, text, rest, htext, hreads, hmoved, ?_⟩
  rw [hmoved.covers_iff, hembeds.outer_eq_nil_iff]

end Recorded

/-! ### Positions of errors -/

/-- What is wrong with the parts of a string is what is first wrong in one of its holes. -/
theorem exists_hole_of_templateParts_error
    (h : templateParts inner line offset ps = .error e) :
    ∃ front text back es, ps = front ++ .hole text :: back ∧ inner text = .error (e :: es) := by
  induction ps generalizing offset with
  | nil =>
      cases h
  | cons part ps ih =>
      cases part with
      | text raw =>
          rw [templateParts_text] at h
          cases hps : templateParts inner line (offset + byteLength raw) ps with
          | ok parts =>
              rw [hps] at h
              cases h
          | error e' =>
              rw [hps] at h
              cases h
              obtain ⟨front, text, back, es, rfl, hinner⟩ := ih hps
              exact ⟨.text raw :: front, text, back, es, rfl, hinner⟩
      | hole cs =>
          rw [templateParts_hole] at h
          cases hts : holeTokens inner line offset cs with
          | ok ts =>
              rw [hts] at h
              cases hps : templateParts inner line (offset + byteLength cs + 3) ps with
              | ok parts =>
                  rw [Except.bind, hps] at h
                  cases h
              | error e' =>
                  rw [Except.bind, hps] at h
                  cases h
                  obtain ⟨front, text, back, es, rfl, hinner⟩ := ih hps
                  exact ⟨.hole cs :: front, text, back, es, rfl, hinner⟩
          | error e' =>
              rw [hts] at h
              cases h
              rw [holeTokens] at hts
              split at hts
              · cases hts
              · next es hinner =>
                  cases hts
                  exact ⟨[], cs, ps, es, rfl, hinner⟩
              · cases hts

theorem templateParts_of_quotedValue_error
    (h : quotedValue inner p ps = .error e) :
    templateParts inner p.line (p.offset + 1) ps = .error e := by
  fun_cases quotedValue inner p ps with
  | case1 | case2 =>
      cases h
  | case3 _ hempty hplain =>
      rw [quotedValue_template hempty hplain] at h
      cases hparts : templateParts inner p.line (p.offset + 1) ps with
      | ok parts =>
          rw [hparts] at h
          cases h
      | error e' =>
          rw [hparts] at h
          cases h
          rfl

/-- What is wrong with a string: one of its holes, its end, or the end of a hole. -/
theorem quotedToken_eq_error
    (h : quotedToken inner p body = .error e) :
    (∃ front text back es, (quotedParts body).1 = front ++ .hole text :: back ∧
      inner text = .error (e :: es)) ∨
    ((quotedParts body).2 = .unterminatedString ∧
      e = ⟨.unterminatedString, ⟨p.offset, p.offset + 1 + byteLength body, p.line, 1⟩⟩) ∨
    ((quotedParts body).2 = .unterminatedHole ∧
      e = ⟨.unterminatedInterpolation,
        ⟨p.offset + 1 + byteLength ((quotedParts body).1.flatMap RawPart.chars),
          p.offset + 1 + byteLength body, p.line, 1⟩⟩) := by
  cases hend : (quotedParts body).2 with
  | closed rest =>
      rw [quotedToken_of_closed hend] at h
      cases hvalue : quotedValue inner p (quotedParts body).1 with
      | ok token =>
          rw [hvalue] at h
          cases h
      | error e' =>
          rw [hvalue] at h
          cases h
          exact .inl (exists_hole_of_templateParts_error (templateParts_of_quotedValue_error hvalue))
  | unterminatedString | unterminatedHole =>
      unfold quotedToken at h
      dsimp only at h
      rw [hend] at h
      dsimp only at h
      cases hparts : templateParts inner p.line (p.offset + 1) (quotedParts body).1 with
      | ok parts =>
          rw [hparts] at h
          cases h
          simp
      | error e' =>
          rw [hparts] at h
          cases h
          exact .inl (exists_hole_of_templateParts_error hparts)

theorem ErrorPosition.of_misread
    (h : Misread cs e.cause depth spot) (hcovers : e.span.CoversBut spot.lead spot.before spot.text) :
    ErrorPosition cs e depth spot where
  misread := h
  stands := h.stands
  covers := hcovers
  covers_iff := by
    rw [hcovers.covers_iff, h.outer_eq_nil_iff]

/-- What is wrong with a string is reported where it stands in its own text. -/
theorem exists_errorPosition_of_quotedToken
    (hinner : ∀ text e es, inner text = .error (e :: es) → ∃ depth spot, ErrorPosition text e depth spot)
    (hp : p.Behind before) (h : quotedToken inner p body = .error e) :
    ∃ depth spot, ErrorPosition (before ++ '"' :: body) e depth spot := by
  rcases quotedToken_eq_error h with
    ⟨front, text, back, es, hparts, hes⟩ | ⟨hend, rfl⟩ | ⟨hend, rfl⟩
  · obtain ⟨depth, spot, hposition⟩ := hinner text e es hes
    exact ⟨depth + 1, _, .of_misread (.inner hparts hposition.misread) hposition.covers⟩
  · refine ⟨0, _, .of_misread (.string hend) ⟨hp.offset, ?_, hp.line⟩⟩
    have hquote : byteLength ('"' :: body) = 1 + byteLength body := rfl
    rw [byteLength_append, hquote, ← hp.offset, Nat.add_assoc]
  · obtain ⟨tail, happend, -⟩ := quotedParts_append body
    have hquote : byteLength ['"'] = 1 := rfl
    refine ⟨0, _, .of_misread (.hole hend happend) ⟨?_, ?_, ?_⟩⟩
    · rw [List.append_cons, byteLength_append, byteLength_append, hquote, ← hp.offset]
    · rw [List.append_assoc, List.cons_append, happend, List.append_cons, byteLength_append,
        byteLength_append, hquote, ← hp.offset]
    · rw [List.count_append, List.count_cons_of_ne (by decide), hp.line, Nat.add_assoc]

/-- A round goes on behind what it has read, and reports what is wrong where it stands. -/
theorem readAll_round_position
    (hinner : ∀ text e es, inner text = .error (e :: es) →
      ∃ depth spot, ErrorPosition text e depth spot)
    (hp : p.Behind before) {blank r : List Char} {c : Char}
    (hblank : blankText .code cs = (blank, c :: r)) (fuel : Nat) (acc : Reading) :
    ∃ text rest q acc', text ++ rest = c :: r ∧ q.Behind (before ++ blank ++ text) ∧
      readAll inner (fuel + 1) cs p acc = readAll inner fuel rest q acc' ∧
      ∀ e ∈ acc'.errors,
        e ∈ acc.errors ∨ ∃ depth spot, ErrorPosition (before ++ blank ++ c :: r) e depth spot := by
  have hplace := hp.advanceBlank blank
  by_cases hquote : c = '"'
  · subst hquote
    have hread : readAll inner (fuel + 1) cs p acc = _ := readAll_quote hblank
    cases hquoted : quotedToken inner (p.advanceBlank blank) r with
    | ok found =>
        obtain ⟨token, rest⟩ := found
        obtain ⟨text, rfl⟩ := exists_text_of_quotedToken hquoted
        exact ⟨'"' :: text, rest, _, _, rfl, hplace.advance _, readAll_quoted hblank hquoted,
          fun e he => .inl he⟩
    | error e =>
        rw [hquoted] at hread
        refine ⟨_, _, _, _, List.takeWhile_append_dropWhile, hplace.advanceBlank _, hread, ?_⟩
        intro e' he'
        rcases List.mem_cons.mp he' with rfl | he'
        · exact .inr (exists_errorPosition_of_quotedToken hinner hplace hquoted)
        · exact .inl he'
  · have hread : readAll inner (fuel + 1) cs p acc = _ := readAll_lexeme hblank hquote
    have happend := (isLexeme_lexeme c r).append
    refine ⟨_, _, _, _, happend, hplace.advance _, hread, ?_⟩
    cases hl : lexeme (c :: r) with
    | mk text rest outcome =>
        rw [hl] at happend
        dsimp only at happend
        cases outcome with
        | ok token =>
            exact fun e he => .inl he
        | error cause =>
            intro e he
            rcases List.mem_cons.mp he with rfl | he
            · rw [← happend]
              refine .inr ⟨0, _, .of_misread (.lexeme (happend ▸ hl)) ?_⟩
              exact (hplace.covers text).coversBut
            · exact .inl he

/-- What is reported of a text is where it stands in the text. -/
theorem exists_errorPosition_of_readAll
    (hinner : ∀ text e es, inner text = .error (e :: es) →
      ∃ depth spot, ErrorPosition text e depth spot)
    (hp : p.Behind before) {acc : Reading} {fuel : Nat} :
    ∀ e ∈ (readAll inner fuel cs p acc).1.errors,
      e ∈ acc.errors ∨ ∃ depth spot, ErrorPosition (before ++ cs) e depth spot := by
  induction fuel generalizing before cs p acc with
  | zero =>
      exact fun e he => .inl he
  | succ fuel ih =>
      have happend := blankText_append .code cs
      cases hblank : blankText .code cs with
      | mk blank left =>
          rw [hblank] at happend
          dsimp only at happend
          cases left with
          | nil =>
              rw [readAll_last hblank]
              exact fun e he => .inl he
          | cons c r =>
              obtain ⟨text, rest, q, acc', htext, hq, hread, hacc⟩ :=
                readAll_round_position hinner hp hblank fuel acc
              rw [hread]
              intro e he
              rcases ih hq e he with he | hposition
              · rw [← happend, ← List.append_assoc]
                exact hacc e he
              · rw [List.append_assoc, htext, List.append_assoc, happend] at hposition
                exact .inr hposition

theorem exists_errorPosition
    {es : List LexError} (h : tokenizeNested depth cs = .error es) :
    ∀ e ∈ es, ∃ depth spot, ErrorPosition cs e depth spot := by
  induction depth generalizing cs es with
  | zero =>
      cases h
  | succ depth ih =>
      rw [tokenizeNested] at h
      split at h
      · cases h
      · cases h
        intro e he
        have hinner (text : List Char) (e : LexError) (es : List LexError)
            (hes : tokenizeNested depth text = .error (e :: es)) :
            ∃ depth spot, ErrorPosition text e depth spot :=
          ih hes e List.mem_cons_self
        rcases exists_errorPosition_of_readAll hinner .origin e (List.mem_reverse.mp he) with
          he | hposition
        · cases he
        · exact hposition

/-! ### Whole sources -/

/-- The spans of the tokens in the holes of a source, and of all that is wrong with a source. -/
theorem tokenize_positions
    (source : String) :
    Positions source where
  tokens := fun ts depth us hread hus => by
    refine hus.holePositions ?_
    rwa [String.ofList_toList]
  errors := fun es hes => exists_errorPosition hes

/-- In a hole in a hole the name stands at offset 6, and is said to stand at offset 3. -/
example :
    tokenize "\"#\x7b\"#\x7bx\x7d\"\x7d\"" =
      .ok [(.template [.hole [(.template [.hole [(.identifier "x", ⟨3, 4, 1, 1⟩),
          (.eof, ⟨4, 4, 1, 2⟩)]], ⟨3, 9, 1, 1⟩), (.eof, ⟨9, 9, 1, 7⟩)]], ⟨0, 11, 1, 1⟩),
        (.eof, ⟨11, 11, 1, 12⟩)] := by
  cbv

/-- The sign in the hole stands at offset 3, and is reported at offset 0. -/
example :
    tokenize "\"#\x7b$\x7d\"" = .error [⟨.unexpectedCharacter '$', ⟨0, 1, 1, 1⟩⟩] := by
  cbv

end ScriptEngine
