import Mathlib
import ScriptEngine.Proofs.Tokens.Skimming

/-!
# Embedded expressions

An expression in the hole of a string gives the tokens that it gives on its own, just if the scan of
the hole ends where the expression does (`tokenize_interpolated`).  It does so if the braces of the
expression are balanced, no comment holds a quote or a brace, and no string holds a double quote in
a hole of its own; the scan does not know of comments, nor of strings in the holes of strings.
-/

namespace ScriptEngine

variable {depth depth' : Nat} {cs before blank text rest hole : List Char} {ps : List RawPart}
variable {inner : List Char → TokenResult} {p q : Place} {ts us : List LocatedToken}
variable {e : String}

/-! ### Cutting a text at spans -/

/-- The characters that fill the first bytes of a text. -/
def takeBytes : Nat → List Char → List Char
  | _, [] => []
  | n, c :: r => if c.utf8Size ≤ n then c :: takeBytes (n - c.utf8Size) r else []

theorem takeBytes_append
    (cs rest : List Char) :
    takeBytes (byteLength cs) (cs ++ rest) = cs := by
  induction cs with
  | nil =>
      cases rest with
      | nil =>
          rfl
      | cons c r =>
          exact if_neg (Nat.not_le_of_lt c.utf8Size_pos)
  | cons c cs ih =>
      rw [List.cons_append, takeBytes, byteLength, if_pos (Nat.le_add_right _ _),
        Nat.add_sub_cancel_left, ih]

/-- The characters behind the first bytes of a text. -/
def dropBytes : Nat → List Char → List Char
  | _, [] => []
  | n, c :: r => if c.utf8Size ≤ n then dropBytes (n - c.utf8Size) r else c :: r

theorem dropBytes_append
    (cs rest : List Char) :
    dropBytes (byteLength cs) (cs ++ rest) = rest := by
  induction cs with
  | nil =>
      cases rest with
      | nil =>
          rfl
      | cons c r =>
          exact if_neg (Nat.not_le_of_lt c.utf8Size_pos)
  | cons c cs ih =>
      rw [List.cons_append, dropBytes, byteLength, if_pos (Nat.le_add_right _ _),
        Nat.add_sub_cancel_left, ih]

/-- Two fronts of a text that take up the same bytes are the same. -/
theorem append_inj_of_byteLength
    {front front' rest' : List Char} (h : front ++ rest = front' ++ rest')
    (hsize : byteLength front = byteLength front') :
    front = front' ∧ rest = rest' := by
  have htake := takeBytes_append front rest
  have hdrop := dropBytes_append front rest
  rw [h, hsize, takeBytes_append] at htake
  rw [h, hsize, dropBytes_append] at hdrop
  exact ⟨htake.symm, hdrop.symm⟩

/-- The characters of a text between two offsets. -/
def slice (start stop : Nat) (cs : List Char) : List Char :=
  takeBytes (stop - start) (dropBytes start cs)

theorem slice_append
    (before text rest : List Char) :
    slice (byteLength before) (byteLength (before ++ text)) (before ++ (text ++ rest)) = text := by
  rw [slice, dropBytes_append, byteLength_append, Nat.add_sub_cancel_left, takeBytes_append]

/-- What stands before each token, from an offset on. -/
def gapsFrom (cs : List Char) : Nat → List LocatedToken → List (List Char)
  | _, [] => []
  | offset, t :: ts => slice offset t.2.start cs :: gapsFrom cs t.2.stop ts

/-- The holes in the text of a token. -/
def holesOf : List Char → List (List Char)
  | '"' :: body => (quotedParts body).1.filterMap fun
    | .hole inner => some inner
    | .text _ => none
  | _ => []

theorem mem_holesOf
    {body : List Char} :
    hole ∈ holesOf ('"' :: body) ↔ .hole hole ∈ (quotedParts body).1 := by
  rw [holesOf, List.mem_filterMap]
  constructor
  · rintro ⟨part, hmem, hpart⟩
    cases part with
    | text raw =>
        cases hpart
    | hole inner =>
        cases hpart
        exact hmem
  · exact fun hmem => ⟨_, hmem, rfl⟩

/-- The holes in the strings of a text. -/
def innerHoles (cs : List Char) (ts : List LocatedToken) : List (List Char) :=
  ts.flatMap fun t => holesOf (slice t.2.start t.2.stop cs)

/-! ### The law -/

/-- A string whose only part is a hole with the given expression. -/
def interpolated (e : String) : String := "\"#\x7b" ++ e ++ "\x7d\""

/-- One template, whose only part is a hole with the given tokens, and the end. -/
def interpolatedTokens (e : String) (ts : List LocatedToken) : List LocatedToken :=
  [(.template [.hole (ts.map fun t => (t.1, t.2.shift 3 1))], ⟨0, e.utf8ByteSize + 5, 1, 1⟩),
    (.eof, Span.atPlace (Place.origin.advance (interpolated e).toList))]

/-- The scan of a hole sees the tokens of a text as they are. -/
structure ScanFits (e : String) (ts : List LocatedToken) : Prop where
  /-- The braces among the tokens are balanced, and none is closed before it is opened. -/
  balanced : (ts.map Prod.fst).foldlM nestingAfter 0 = some 0
  /-- No quote and no brace stands in a comment. -/
  comments : ∀ gap ∈ gapsFrom e.toList 0 ts, ∀ c ∈ gap, c ∉ holeMarks
  /-- No double quote stands in a hole of a string. -/
  strings : ∀ hole ∈ innerHoles e.toList ts, '"' ∉ hole

/-- How an expression and the string that embeds it agree. -/
structure Interpolation (e : String) (ts : List LocatedToken) : Prop where
  /-- They agree just if the scan of the hole ends where the expression does. -/
  agrees_iff : tokenize (interpolated e) = .ok (interpolatedTokens e ts) ↔
    splitHole 0 none (e.toList ++ ['}', '"']) = some (e.toList, ['"'])
  /-- They agree if the scan sees the tokens as they are. -/
  agrees : ScanFits e ts → tokenize (interpolated e) = .ok (interpolatedTokens e ts)

/-! ### The scan of an expression -/

/-- The scan of a hole passes over the tokens of a text and the gaps between them. -/
theorem Tokenized.skims
    (h : Tokenized inner p cs ts q) (hp : p.Behind before)
    (hbalanced : ((ts ++ [(Token.eof, Span.atPlace q)]).map Prod.fst).foldlM nestingAfter depth =
      some depth')
    (hgaps : ∀ gap ∈ gapsFrom (before ++ cs) (byteLength before) (ts ++ [(.eof, Span.atPlace q)]),
      ∀ c ∈ gap, c ∉ holeMarks)
    (hstrings : ∀ t ∈ ts, ∀ hole ∈ holesOf (slice t.2.start t.2.stop (before ++ cs)), '"' ∉ hole) :
    Skims depth none cs depth' none := by
  induction h generalizing before depth with
  | @last p blank hblank =>
      have hslice := slice_append before blank []
      rw [List.append_nil] at hslice
      cases hbalanced
      refine .plains (hgaps blank ?_)
      have hgap : gapsFrom (before ++ blank) (byteLength before)
          [(.eof, Span.atPlace (p.advanceBlank blank))] =
            [slice (byteLength before) (p.advanceBlank blank).offset (before ++ blank)] := rfl
      rw [List.nil_append, hgap, (hp.advanceBlank blank).offset, hslice]
      exact List.mem_singleton_self blank
  | @token p q blank text rest token ts hblank htoken hrest ih =>
      have hstart := hp.advanceBlank blank
      have hstop := hstart.advance text
      have hspan : Span.ofText (p.advanceBlank blank) text =
          ⟨byteLength (before ++ blank), byteLength (before ++ blank ++ text),
            (p.advanceBlank blank).line, (p.advanceBlank blank).column⟩ := by
        rw [Span.ofText, hstart.offset, ← byteLength_append]
      have hwhole : before ++ (blank ++ (text ++ rest)) = before ++ blank ++ text ++ rest := by
        simp
      obtain ⟨depth₁, htext, hbalanced⟩ := Option.bind_eq_some_iff.mp hbalanced
      rw [hspan] at hgaps hstrings
      obtain ⟨hgap, hgaps⟩ := List.forall_mem_cons.mp hgaps
      obtain ⟨hholes, hstrings⟩ := List.forall_mem_cons.mp hstrings
      dsimp only at hgap hgaps hholes
      rw [slice_append] at hgap
      rw [← List.append_assoc, slice_append] at hholes
      rw [hwhole] at hgaps hstrings
      have htoken := htoken.skims htext fun body hbody hole hmem =>
        hholes hole (hbody ▸ mem_holesOf.mpr hmem)
      exact (Skims.plains hgap).append (htoken.append (ih hstop hbalanced hgaps hstrings))

/-- A scan that sees the tokens as they are ends where the text does. -/
theorem ScanFits.splitHole_eq
    (hfits : ScanFits e ts) (h : tokenize e = .ok ts) :
    splitHole 0 none (e.toList ++ ['}', '"']) = some (e.toList, ['"']) := by
  obtain ⟨us, q, hus, rfl⟩ := tokenize_eq_ok_iff.mp h
  have hstrings (t : LocatedToken) (ht : t ∈ us) (hole : List Char)
      (hmem : hole ∈ holesOf (slice t.2.start t.2.stop e.toList)) : '"' ∉ hole :=
    hfits.strings hole (List.mem_flatMap.mpr ⟨t, List.mem_append_left _ ht, hmem⟩)
  exact (hus.skims .origin hfits.balanced hfits.comments hstrings).splitHole_eq ['"']

/-! ### The string of a hole -/

/-- A string is one hole just if the scan of the hole ends before a double quote. -/
theorem quotedParts_eq_hole_iff :
    quotedParts ('#' :: '{' :: cs) = ([.hole hole], .closed rest) ↔
      splitHole 0 none cs = some (hole, '"' :: rest) := by
  constructor
  · intro h
    cases hsplit : splitHole 0 none cs with
    | none =>
        rw [quotedParts] at h
        split at h
        · cases h
        · next hsome =>
            cases hsplit.symm.trans hsome
    | some found =>
        obtain ⟨hole', rest'⟩ := found
        rw [quotedParts_hole hsplit] at h
        obtain ⟨hparts, hend⟩ := Prod.mk.inj h
        obtain ⟨hhole, hnil⟩ := List.cons.inj hparts
        have happend := append_of_closed hend
        rw [hnil] at happend
        cases hhole
        rw [← happend]
        rfl
  · intro h
    rw [quotedParts_hole h]
    simp [quotedParts]

theorem length_templateParts
    {line offset : Nat} {parts : List TemplatePart}
    (h : templateParts inner line offset ps = .ok parts) :
    parts.length = ps.length := by
  induction ps generalizing offset parts with
  | nil =>
      cases h
      rfl
  | cons part ps ih =>
      cases part with
      | text raw =>
          rw [templateParts_text] at h
          obtain ⟨parts, hps, rfl⟩ := map_eq_ok_iff.mp h
          exact congrArg (· + 1) (ih hps)
      | hole cs =>
          rw [templateParts_hole] at h
          obtain ⟨ts, -, h⟩ := bind_eq_ok_iff.mp h
          obtain ⟨parts, hps, rfl⟩ := map_eq_ok_iff.mp h
          exact congrArg (· + 1) (ih hps)

/-- A string gives a template of one hole just if it is one hole. -/
theorem quotedValue_eq_hole_iff :
    quotedValue inner p ps = .ok (.template [.hole ts]) ↔
      ∃ hole, ps = [.hole hole] ∧ holeTokens inner p.line (p.offset + 1) hole = .ok ts := by
  have hvalue (hole : List Char) :
      quotedValue inner p [.hole hole] =
        (holeTokens inner p.line (p.offset + 1) hole).map fun ts => .template [.hole ts] := by
    rw [quotedValue_template (by simp) (by simp), templateParts_hole]
    cases holeTokens inner p.line (p.offset + 1) hole with
    | ok | error =>
        rfl
  constructor
  · intro h
    obtain ⟨part, rfl⟩ : ∃ part, ps = [part] := by
      fun_cases quotedValue inner p ps with
      | case1 | case2 =>
          cases h
      | case3 _ hempty hplain =>
          rw [quotedValue_template hempty hplain] at h
          obtain ⟨parts, hparts, heq⟩ := map_eq_ok_iff.mp h
          cases heq
          exact List.length_eq_one_iff.mp (length_templateParts hparts).symm
    cases part with
    | text raw =>
        cases h
    | hole hole =>
        rw [hvalue] at h
        obtain ⟨ts', hts, heq⟩ := map_eq_ok_iff.mp h
        cases heq
        exact ⟨hole, rfl, hts⟩
  · rintro ⟨hole, rfl, hts⟩
    rw [hvalue]
    exact map_eq_ok_iff.mpr ⟨ts, hts, rfl⟩

/-! ### The string on its own -/

@[simp]
theorem toList_interpolated
    (e : String) :
    (interpolated e).toList = '"' :: '#' :: '{' :: (e.toList ++ ['}', '"']) := by
  simp [interpolated]

theorem ofText_interpolated
    (e : String) :
    Span.ofText .origin (interpolated e).toList = ⟨0, e.utf8ByteSize + 5, 1, 1⟩ := by
  have hsize : byteLength (interpolated e).toList = e.utf8ByteSize + 5 := by
    have hfront : ("\"#\x7b" : String).utf8ByteSize = 3 := rfl
    have hback : ("\x7d\"" : String).utf8ByteSize = 2 := rfl
    rw [byteLength_eq, String.ofList_toList, interpolated, String.utf8ByteSize_append,
      String.utf8ByteSize_append, hfront, hback]
    omega
  rw [Span.ofText, hsize]
  simp [Place.origin]

/-- The end of a text stands behind all of it, also after the text is moved. -/
theorem start_getLast?_shift
    (h : tokenizeNested (depth + 1) cs = .ok ts) (offset line : Nat) :
    (ts.map fun t => (t.1, t.2.shift offset line)).getLast?.map (·.2.start) =
      some (byteLength cs + offset) := by
  obtain ⟨us, q, hus, rfl⟩ := tokenizeNested_eq_ok_iff.mp h
  have hq := (hus.behind .origin).offset
  rw [List.nil_append] at hq
  simp [Span.shift, Span.atPlace, hq]

/-- The tokens of a hole tell how long it is. -/
theorem byteLength_eq_of_holeTokens
    {line offset : Nat} (hcs : tokenizeNested (depth + 1) cs = .ok ts)
    (h : holeTokens (tokenizeNested (depth' + 1)) line offset hole =
      .ok (ts.map fun t => (t.1, t.2.shift (offset + 2) line))) :
    byteLength hole = byteLength cs := by
  have hlast := start_getLast?_shift hcs (offset + 2) line
  rw [holeTokens] at h
  split at h
  · next us hhole =>
      rw [← Except.ok.inj h, start_getLast?_shift hhole] at hlast
      have := Option.some.inj hlast
      omega
  · cases h
  · rw [← Except.ok.inj h] at hlast
    cases hlast

theorem Tokenized.of_quote
    (h : Tokenized inner p ('"' :: cs) ts q) :
    ∃ token rest us, quotedToken inner p cs = .ok (token, rest) ∧
      ts.map Prod.fst = token :: us := by
  generalize htext : '"' :: cs = text at h
  cases h with
  | last hblank =>
      subst htext
      cases congrArg Prod.snd hblank
  | @token _ _ blank text rest token ts hblank htoken hrest =>
      rw [← htext] at hblank
      obtain ⟨rfl, hleft⟩ := Prod.mk.inj hblank
      cases htoken with
      | quoted hquoted =>
          cases hleft
          exact ⟨_, _, _, hquoted, rfl⟩
      | lexeme hne hquote hlexeme =>
          cases text with
          | nil =>
              exact absurd rfl hne
          | cons c text =>
              cases hleft
              exact absurd rfl (hquote text)

/-- The string that embeds an expression gives its tokens, if the scan of the hole finds it. -/
theorem tokenize_of_splitHole
    (h : tokenize e = .ok ts)
    (hsplit : splitHole 0 none (e.toList ++ ['}', '"']) = some (e.toList, ['"'])) :
    tokenize (interpolated e) = .ok (interpolatedTokens e ts) := by
  have htext := toList_interpolated e
  have hinner : tokenizeNested (interpolated e).toList.length e.toList = .ok ts := by
    rw [← h]
    exact tokenizeNested_eq (by simp [htext]; omega) (Nat.lt_succ_self _)
  have hvalue : quotedValue (tokenizeNested (interpolated e).toList.length) .origin
      [.hole e.toList] = .ok (.template [.hole (ts.map fun t => (t.1, t.2.shift 3 1))]) := by
    refine quotedValue_eq_hole_iff.mpr ⟨e.toList, rfl, ?_⟩
    rw [holeTokens, hinner]
    rfl
  have hparts := quotedParts_eq_hole_iff.mpr hsplit
  have hquoted : quotedToken (tokenizeNested (interpolated e).toList.length) .origin
      ('#' :: '{' :: (e.toList ++ ['}', '"']) ++ []) =
        .ok (.template [.hole (ts.map fun t => (t.1, t.2.shift 3 1))], []) := by
    rw [List.append_nil]
    exact quotedToken_eq_ok_iff.mpr ⟨by rw [hparts], by rw [hparts]; exact hvalue⟩
  have hread : Tokenized (tokenizeNested (interpolated e).toList.length) .origin
      ([] ++ ('"' :: '#' :: '{' :: (e.toList ++ ['}', '"']) ++ []))
      [(.template [.hole (ts.map fun t => (t.1, t.2.shift 3 1))],
        Span.ofText .origin ('"' :: '#' :: '{' :: (e.toList ++ ['}', '"'])))]
      (Place.origin.advance ('"' :: '#' :: '{' :: (e.toList ++ ['}', '"']))) :=
    .token rfl (.quoted hquoted) (.last rfl)
  rw [List.nil_append, List.append_nil, ← htext] at hread
  refine tokenize_eq_ok_iff.mpr ⟨_, _, hread, ?_⟩
  rw [interpolatedTokens, ← ofText_interpolated]
  rfl

/-- The scan of the hole finds an expression, if the string that embeds it gives its tokens. -/
theorem splitHole_of_tokenize
    (h : tokenize e = .ok ts)
    (hstring : tokenize (interpolated e) = .ok (interpolatedTokens e ts)) :
    splitHole 0 none (e.toList ++ ['}', '"']) = some (e.toList, ['"']) := by
  obtain ⟨us, q, hus, heq⟩ := tokenize_eq_ok_iff.mp hstring
  have heq : [_] ++ [_] = us ++ [_] := heq
  obtain ⟨rfl, -⟩ := List.append_inj' heq rfl
  rw [toList_interpolated] at hus
  obtain ⟨token, rest, us, hquoted, htoken⟩ := hus.of_quote
  cases htoken
  obtain ⟨hclosed, hvalue⟩ := quotedToken_eq_ok_iff.mp hquoted
  obtain ⟨hole, hparts, htokens⟩ := quotedValue_eq_hole_iff.mp hvalue
  have hsplit := quotedParts_eq_hole_iff.mp (Prod.ext hparts hclosed)
  have hsize : byteLength hole = byteLength e.toList := byteLength_eq_of_holeTokens h htokens
  obtain ⟨rfl, hrest⟩ := append_inj_of_byteLength (splitHole_append hsplit) hsize
  cases hrest
  exact hsplit

/-- An expression that can be read, and the string that embeds it. -/
theorem tokenize_interpolated
    (h : tokenize e = .ok ts) :
    Interpolation e ts where
  agrees_iff := ⟨splitHole_of_tokenize h, tokenize_of_splitHole h⟩
  agrees := fun hfits => tokenize_of_splitHole h (hfits.splitHole_eq h)

/-- Braces and quotes of both kinds, a string with a hole, and a comment at the end. -/
theorem tokenize_interpolated_braces :
    ∃ ts, tokenize "\x7bk: 'a\x7d'\x7d + \"\x7d#\x7bx\x7d\" // c" = .ok ts ∧
      ScanFits "\x7bk: 'a\x7d'\x7d + \"\x7d#\x7bx\x7d\" // c" ts ∧
      Interpolation "\x7bk: 'a\x7d'\x7d + \"\x7d#\x7bx\x7d\" // c" ts := by
  have hread : tokenize "\x7bk: 'a\x7d'\x7d + \"\x7d#\x7bx\x7d\" // c" =
      .ok [(.mark .leftBrace, ⟨0, 1, 1, 1⟩), (.identifier "k", ⟨1, 2, 1, 2⟩),
        (.mark .colon, ⟨2, 3, 1, 3⟩), (.string "a\x7d", ⟨4, 8, 1, 5⟩),
        (.mark .rightBrace, ⟨8, 9, 1, 9⟩), (.mark .plus, ⟨10, 11, 1, 11⟩),
        (.template [.text "\x7d", .hole [(.identifier "x", ⟨16, 17, 1, 1⟩),
          (.eof, ⟨17, 17, 1, 2⟩)]], ⟨12, 19, 1, 13⟩),
        (.eof, ⟨24, 24, 1, 25⟩)] := by
    cbv
  refine ⟨_, hread, ⟨rfl, ?_, ?_⟩, tokenize_interpolated hread⟩
  · rw [show gapsFrom _ _ _ = [[], [], [], [' '], [], [' '], [' '], " // c".toList] from ?hgaps]
    · simp [holeMarks]
    · rfl
  · rw [show innerHoles _ _ = [['x']] from ?hholes]
    · decide
    · cbv

/-- For the scan a string with a quoted brace in its hole ends in the middle. -/
example :
    splitHole 0 none ("\"#\x7b\"\x7d\"\x7d\"".toList ++ ['}', '"']) =
      some ("\"#\x7b\"".toList, "\"\x7d\"\x7d\"".toList) := by
  cbv

end ScriptEngine
