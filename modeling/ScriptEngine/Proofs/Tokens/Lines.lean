import ScriptEngine.Proofs.Tokens.Tiling

/-!
# Lines behind a text

A line end ends every token but a string, and every comment but one in a block.  So a text reads the
same when other lines stand behind it, and the lines behind it read as they do alone
(`tokenize_lines`).
-/

namespace ScriptEngine

/-- A scanner stops at the end of the line. -/
def Stops (f : List Char → List Char × List Char) : Prop :=
  ∀ cs x, f (cs ++ '\n' :: x) = ((f cs).1, (f cs).2 ++ '\n' :: x)

variable {p : Char → Bool} {f : List Char → List Char × List Char} {cs x : List Char}

namespace Stops

theorem eq
    {taken rest : List Char} (h : Stops f) (heq : f cs = (taken, rest)) (x : List Char) :
    f (cs ++ '\n' :: x) = (taken, rest ++ '\n' :: x) := by
  rw [h cs x, heq]

theorem after
    (hf : Stops f) (hp : p '\n' = false) :
    Stops fun
      | c :: r => if p c && !(f r).1.isEmpty then (c :: (f r).1, (f r).2) else ([], c :: r)
      | [] => ([], []) := by
  intro cs x
  cases cs with
  | nil =>
      simp [hp]
  | cons c r =>
      dsimp only [List.cons_append]
      rw [hf r x]
      split
      · rfl
      · rfl

end Stops

theorem stops_takeWhile
    (hp : p '\n' = false) :
    Stops fun cs => (cs.takeWhile p, cs.dropWhile p) := by
  intro cs x
  induction cs with
  | nil =>
      simp [hp]
  | cons c cs ih =>
      obtain ⟨htake, hdrop⟩ := Prod.mk.inj ih
      cases hc : p c with
      | true =>
          simp [hc, htake, hdrop]
      | false =>
          simp [hc]

theorem stops_moreDigits
    (hp : p '\n' = false) (hunder : p '_' = false) :
    Stops (moreDigits p) := by
  intro cs x
  fun_induction moreDigits p cs with
  | case1 d r hd q ih =>
      show moreDigits p ('_' :: d :: (r ++ '\n' :: x)) = _
      rw [moreDigits, if_pos hd, ih]
  | case2 d r hd =>
      exact moreDigits_eq_nil hunder fun d' z _ hz => by
        cases hz
        simpa using hd
  | case3 c r hgroup hc q ih =>
      have hne : c ≠ '_' := by
        rintro rfl
        simp [hunder] at hc
      show moreDigits p (c :: (r ++ '\n' :: x)) = _
      rw [moreDigits, if_pos hc, ih]
      exact fun _ _ hc' => absurd hc' hne
  | case4 c r hgroup hc =>
      refine moreDigits_eq_nil (by simpa using hc) fun d z hc' hz => ?_
      cases r with
      | nil =>
          cases hz
          exact hp
      | cons d' r =>
          exact absurd rfl (hgroup d' r hc')
  | case5 =>
      exact moreDigits_eq_nil hp fun _ _ hc => by cases hc

theorem stops_digitGroups
    (hp : p '\n' = false) (hunder : p '_' = false) :
    Stops (digitGroups p) := by
  intro cs x
  cases cs with
  | nil =>
      simp [digitGroups, hp]
  | cons c r =>
      simp only [List.cons_append, digitGroups, stops_moreDigits hp hunder r x]
      split
      · rfl
      · rfl

theorem stops_signText :
    Stops signText := by
  intro cs x
  cases cs with
  | nil =>
      rfl
  | cons c r =>
      simp only [List.cons_append, signText]
      split
      · rfl
      · rfl

theorem stops_signedDigits :
    Stops signedDigits := by
  intro cs x
  have hdigits := stops_takeWhile (p := Char.isDigit) rfl (signText cs).2 x
  obtain ⟨htake, hdrop⟩ := Prod.mk.inj hdigits
  simp only [signedDigits, stops_signText cs x, htake, hdrop]
  split
  · rfl
  · rfl

theorem stops_exponentText :
    Stops exponentText :=
  funext exponentText_eq ▸ stops_signedDigits.after rfl

theorem stops_fractionText :
    Stops fractionText :=
  funext fractionText_eq ▸ (stops_digitGroups rfl rfl).after rfl

/-! ### Lexemes -/

/-- A lexeme with another line behind it. -/
def Lexeme.before (l : Lexeme) (x : List Char) : Lexeme := { l with rest := l.rest ++ '\n' :: x }

theorem decimalLexeme_before
    (cs x : List Char) :
    decimalLexeme (cs ++ '\n' :: x) = (decimalLexeme cs).before x := by
  have hdigits := stops_digitGroups (p := Char.isDigit) rfl rfl
  cases hwhole : digitGroups Char.isDigit cs with
  | mk digits point =>
      by_cases hspaced : ∃ r, point = '_' :: r
      · obtain ⟨r, rfl⟩ := hspaced
        rw [decimalLexeme_of_underscore hwhole, decimalLexeme_of_underscore (hdigits.eq hwhole x)]
        rfl
      · have hne (r : List Char) : point ≠ '_' :: r := fun hr => hspaced ⟨r, hr⟩
        have hne' (r : List Char) : point ++ '\n' :: x ≠ '_' :: r := fun hr => by
          cases point with
          | nil =>
              cases hr
          | cons c point =>
              cases hr
              exact hne point rfl
        cases hfraction : fractionText point with
        | mk fraction behind =>
            cases hexponent : exponentText behind with
            | mk exponent rest =>
                rw [decimalLexeme_of_ne hwhole hne hfraction hexponent,
                  decimalLexeme_of_ne (hdigits.eq hwhole x) hne' (stops_fractionText.eq hfraction x)
                    (stops_exponentText.eq hexponent x)]
                unfold pointedLexeme Lexeme.before
                dsimp only
                split
                · rfl
                · rfl

/-- A mark of two characters at the start of a text, and a line behind the text. -/
theorem eq_of_append_line
    {c d : Char} {r : List Char} (hc : c ≠ '\n') (hd : d ≠ '\n')
    (h : cs ++ '\n' :: x = c :: d :: r) :
    ∃ r', cs = c :: d :: r' ∧ r = r' ++ '\n' :: x := by
  obtain _ | ⟨c', _ | ⟨d', r'⟩⟩ := cs
  · cases h
    exact absurd rfl hc
  · cases h
    exact absurd rfl hd
  · cases h
    exact ⟨r', rfl, rfl⟩

theorem PlainNumber.before
    (h : PlainNumber cs) (x : List Char) :
    PlainNumber (cs ++ '\n' :: x) := by
  constructor
  · intro r hr
    obtain ⟨r', rfl, rfl⟩ := eq_of_append_line (by decide) (by decide) hr
    rw [stops_digitGroups rfl rfl]
    exact h.1 r' rfl
  · intro r hr
    obtain ⟨r', rfl, rfl⟩ := eq_of_append_line (by decide) (by decide) hr
    rw [stops_digitGroups rfl rfl]
    exact h.2 r' rfl

theorem numberLexeme_before
    (cs x : List Char) :
    numberLexeme (cs ++ '\n' :: x) = (numberLexeme cs).before x := by
  by_cases hplain : PlainNumber cs
  · rw [hplain.numberLexeme_eq, (hplain.before x).numberLexeme_eq, decimalLexeme_before]
  · rcases not_and_or.mp hplain with hhex | hbinary
    · obtain ⟨r, hr⟩ := not_forall.mp hhex
      obtain ⟨rfl, hdigits⟩ := Classical.not_imp.mp hr
      have hread (r : List Char) (hr : (digitGroups isHexDigit r).1 ≠ []) :
          numberLexeme ('0' :: 'x' :: r) = basedLexeme ['0', 'x'] (digitGroups isHexDigit r) 16 :=
        if_neg (by simpa using hr)
      have hstops := stops_digitGroups (p := isHexDigit) rfl rfl r x
      rw [hread r hdigits, List.cons_append, List.cons_append, hread _ (by rwa [hstops]), hstops]
      rfl
    · obtain ⟨r, hr⟩ := not_forall.mp hbinary
      obtain ⟨rfl, hdigits⟩ := Classical.not_imp.mp hr
      have hread (r : List Char) (hr : (digitGroups isBinaryDigit r).1 ≠ []) :
          numberLexeme ('0' :: 'b' :: r) = basedLexeme ['0', 'b'] (digitGroups isBinaryDigit r) 2 :=
        if_neg (by simpa using hr)
      have hstops := stops_digitGroups (p := isBinaryDigit) rfl rfl r x
      rw [hread r hdigits, List.cons_append, List.cons_append, hread _ (by rwa [hstops]), hstops]
      rfl

/-- No mark has a line end in it. -/
theorem Mark.newline_not_mem
    (m : Mark) :
    '\n' ∉ m.text.toList := by
  cases m with
  | _ => decide

theorem takeExactly?_before
    {ps : List Char} (hps : '\n' ∉ ps) (cs x : List Char) :
    takeExactly? ps (cs ++ '\n' :: x) = (takeExactly? ps cs).map (· ++ '\n' :: x) := by
  induction ps generalizing cs with
  | nil =>
      rfl
  | cons c ps ih =>
      have hc : c ≠ '\n' := fun hc => hps (hc ▸ List.mem_cons_self)
      cases cs with
      | nil =>
          simp [takeExactly?, hc]
      | cons d cs =>
          simp only [List.cons_append, takeExactly?]
          split
          · exact ih (fun h => hps (List.mem_cons_of_mem _ h)) cs
          · rfl

theorem markLexeme?_before
    (cs x : List Char) :
    markLexeme? (cs ++ '\n' :: x) = (markLexeme? cs).map (·.before x) := by
  unfold markLexeme?
  rw [List.map_findSome?]
  congr 1
  funext m
  rw [takeExactly?_before m.newline_not_mem, Function.comp_apply, Option.map_map, Option.map_map]
  rfl

/-- A token ends with the line. -/
theorem IsLexeme.before
    {l : Lexeme} {t : Token} (h : IsLexeme cs l) (ht : l.token = .ok t) (x : List Char) :
    lexeme (cs ++ '\n' :: x) = l.before x := by
  cases h with
  | @word c r hname =>
      obtain ⟨htake, hdrop⟩ := Prod.mk.inj (stops_takeWhile (p := isNamePart) rfl (c :: r) x)
      rw [List.cons_append] at htake hdrop ⊢
      rw [lexeme_of_name hname, htake, hdrop]
      rfl
  | @number c r hname hdigit =>
      rw [← numberLexeme_before, List.cons_append]
      exact lexeme_of_digit hname hdigit
  | @quoted r hclosed =>
      have happend := singleQuoted_append r
      rw [if_pos hclosed] at happend
      have hread := singleQuoted_closed hclosed ((singleQuoted r).2.1 ++ '\n' :: x)
      have htext : (singleQuoted r).1 ++ '\'' :: ((singleQuoted r).2.1 ++ '\n' :: x) =
          r ++ '\n' :: x := by
        conv_rhs => rw [← happend]
        simp
      rw [htext] at hread
      have hlexeme := lexeme_of_quote (r := r ++ '\n' :: x) (by rw [hread])
      rw [hread] at hlexeme
      exact hlexeme
  | @mark c r l hname hdigit hquote hmark =>
      have hread := markLexeme?_before (c :: r) x
      rw [hmark] at hread
      exact lexeme_of_mark hname hdigit hquote hread
  | unclosed | unexpected =>
      cases ht

/-! ### Tokens -/

section Tokens

variable {inner inner' : List Char → TokenResult} {q p' : Place} {ts us : List LocatedToken}
variable {text rest : List Char} {token : Token} {p : Place} {depth depth' : Nat}

theorem quotedValue_congr
    {ps : List RawPart} (hinner : ∀ hole, .hole hole ∈ ps → inner hole = inner' hole) (p : Place) :
    quotedValue inner p ps = quotedValue inner' p ps := by
  fun_cases quotedValue inner p ps with
  | case1 | case2 =>
      rfl
  | case3 ps hempty hplain =>
      rw [quotedValue_template hempty hplain, templateParts_congr hinner]

/-- A string ends at its closing quote, whatever stands behind it. -/
theorem quotedToken_before
    (h : quotedToken inner p cs = .ok (token, rest))
    (hinner : ∀ hole, .hole hole ∈ (quotedParts cs).1 → inner hole = inner' hole) (x : List Char) :
    quotedToken inner' p (cs ++ x) = .ok (token, rest ++ x) := by
  obtain ⟨hclosed, hvalue⟩ := quotedToken_eq_ok_iff.mp h
  have hparts := quotedParts_closed hclosed (rest ++ x)
  have htext : (quotedParts cs).1.flatMap RawPart.chars ++ '"' :: (rest ++ x) = cs ++ x := by
    conv_rhs => rw [← append_of_closed hclosed]
    simp
  rw [htext] at hparts
  refine quotedToken_eq_ok_iff.mpr ?_
  rw [hparts]
  exact ⟨rfl, by rw [← quotedValue_congr hinner, hvalue]⟩

/-- The holes of a string are shorter than its text. -/
theorem length_lt_of_quotedToken
    (h : quotedToken inner p (text ++ rest) = .ok (token, rest)) {hole : List Char}
    (hmem : .hole hole ∈ (quotedParts (text ++ rest)).1) :
    hole.length < text.length := by
  have hparts := quotedParts_alone (quotedToken_eq_ok_iff.mp h).1
  exact length_lt_of_hole (by rwa [hparts])

theorem TokenAt.before
    (h : TokenAt inner p text token rest)
    (hinner : ∀ hole, hole.length < text.length → inner hole = inner' hole) (x : List Char) :
    TokenAt inner' p text token (rest ++ '\n' :: x) := by
  cases h with
  | @quoted text _ _ h =>
      refine .quoted ?_
      rw [← List.append_assoc]
      exact quotedToken_before h
        (fun hole hmem => hinner hole (Nat.lt_succ_of_lt (length_lt_of_quotedToken h hmem))) _
  | lexeme hne hquote h =>
      refine .lexeme hne hquote ?_
      rw [← List.append_assoc]
      exact (isLexeme_of_lexeme hne h).before rfl x

/-- The same token stands at another place. -/
theorem TokenAt.moved
    (h : TokenAt inner p text token rest)
    (hinner : ∀ hole, hole.length < text.length → inner hole = inner' hole) (hline : 1 ≤ p.line)
    (hline' : 1 ≤ p'.line) :
    ∃ token', TokenAt inner' p' text token' rest ∧ token'.Alike token := by
  cases h with
  | @quoted text _ _ h =>
      obtain ⟨hclosed, hvalue⟩ := quotedToken_eq_ok_iff.mp h
      have hholes (hole : List Char) (hmem : .hole hole ∈ (quotedParts (text ++ rest)).1) :
          inner hole = inner' hole :=
        hinner hole (Nat.lt_succ_of_lt (length_lt_of_quotedToken h hmem))
      obtain ⟨token', hvalue', -⟩ := quotedValue_alike hline hholes hvalue hline'
      obtain ⟨token'', hback, halike⟩ :=
        quotedValue_alike hline' (fun hole hmem => (hholes hole hmem).symm) hvalue' hline
      rw [hvalue] at hback
      cases hback
      exact ⟨token', .quoted (quotedToken_eq_ok_iff.mpr ⟨hclosed, hvalue'⟩), halike⟩
  | lexeme hne hquote h =>
      exact ⟨token, .lexeme hne hquote h, .refl token⟩

theorem Place.advanceBlank_append
    (p : Place) (cs ds : List Char) :
    p.advanceBlank (cs ++ ds) = (p.advanceBlank cs).advanceBlank ds :=
  List.foldl_append

/-- Blanks may stand in front of a text. -/
theorem Tokenized.behind_blanks
    {b : List Char} (hb : Blanks false b) (h : Tokenized inner (p.advanceBlank b) cs ts q) :
    Tokenized inner p (b ++ cs) ts q := by
  generalize hp : p.advanceBlank b = p' at h
  cases h with
  | last hblank =>
      have hlast : blankText .code (b ++ cs) = (b ++ cs, []) := by
        rw [hb.blankText_append, hblank]
      have hread : Tokenized inner p (b ++ cs) [] _ := .last hlast
      rwa [Place.advanceBlank_append, hp] at hread
  | @token _ q blank text rest token ts hblank htoken hrest =>
      have hplace : p.advanceBlank (b ++ blank) = p'.advanceBlank blank := by
        rw [Place.advanceBlank_append, hp]
      rw [← hplace] at htoken hrest ⊢
      rw [← List.append_assoc]
      refine .token ?_ htoken hrest
      rw [List.append_assoc, hb.blankText_append, hblank]

/-- What stands behind the last token of a text are blanks.  When they are closed by a line end, the
reading goes on with the next line. -/
theorem Tokenized.exists_tail
    {before : List Char} (h : Tokenized (tokenizeNested depth) p cs ts q) (hp : p.Behind before)
    (hdepth : cs.length ≤ depth) (hdepth' : cs.length ≤ depth') :
    ∃ front tail, cs = front ++ tail ∧ Blanks true tail ∧
      (ts.getLast?.map fun t => t.2.stop).getD (byteLength before) = byteLength (before ++ front) ∧
      ∀ x us r, Blanks false (tail ++ ['\n']) →
        Tokenized (tokenizeNested depth') (q.stepBlank '\n') x us r →
          Tokenized (tokenizeNested depth') p (cs ++ '\n' :: x) (ts ++ us) r := by
  induction h generalizing before with
  | @last p blank hblank =>
      have htakes := blankText_takes .code blank
      rw [hblank] at htakes
      refine ⟨[], blank, rfl, htakes, by simp, fun x us r hclosed hread => ?_⟩
      have hplace : (p.advanceBlank blank).stepBlank '\n' = p.advanceBlank (blank ++ ['\n']) := by
        rw [Place.advanceBlank_append]
        rfl
      rw [hplace] at hread
      simpa using hread.behind_blanks hclosed
  | @token p q blank text rest token ts hblank htoken hrest ih =>
      have htakes := blankText_takes .code (blank ++ (text ++ rest))
      have hleft := blankText_rest .code (blank ++ (text ++ rest))
      rw [hblank] at htakes hleft
      have hsome : text ++ rest ≠ [] := List.append_ne_nil_of_left_ne_nil htoken.ne_nil rest
      dsimp only at htakes hleft
      rw [List.isEmpty_eq_false_iff.mpr hsome] at htakes
      have hplace := (hp.advanceBlank blank)
      simp only [List.length_append] at hdepth hdepth'
      obtain ⟨front, tail, rfl, htail, hstop, hnext⟩ :=
        ih (hplace.advance text) (by omega) (by omega)
      refine ⟨blank ++ (text ++ front), tail, by simp, htail, ?_, fun x us r hclosed hread => ?_⟩
      · cases ts with
        | nil =>
            rw [List.getLast?_singleton]
            rw [List.getLast?_nil] at hstop
            have hfront : byteLength (before ++ blank ++ text) = (p.advanceBlank blank).offset +
                byteLength text := by
              rw [byteLength_append, hplace.offset]
            simp only [Option.map_some, Option.getD_some, Option.map_none,
              Option.getD_none] at hstop ⊢
            rw [← List.append_assoc, ← List.append_assoc, ← hstop, hfront]
            rfl
        | cons t ts =>
            rw [List.getLast?_cons_cons]
            rw [List.getLast?_cons] at hstop ⊢
            simpa using hstop
      · have hinner (hole : List Char) (hlt : hole.length < text.length) :
            tokenizeNested depth hole = tokenizeNested depth' hole :=
          tokenizeNested_eq (by omega) (by omega)
        have hblank' : blankText .code (blank ++ (text ++ (front ++ tail ++ '\n' :: x))) =
            (blank, text ++ (front ++ tail ++ '\n' :: x)) := by
          rw [htakes.blankText_append, ← List.append_assoc text, blankText_before hleft hsome x,
            List.append_nil]
        simpa using Tokenized.token hblank' (htoken.before hinner x) (hnext x us r hclosed hread)

/-- A text reads the same at another place. -/
theorem Tokenized.moved
    {b b' c : List Char} (h : Tokenized (tokenizeNested depth) p cs ts q) (hp : p.Behind (b ++ c))
    (hp' : p'.Behind (b' ++ c)) (hdepth : cs.length ≤ depth) (hdepth' : cs.length ≤ depth') :
    ∃ ts' q', Tokenized (tokenizeNested depth') p' cs ts' q' ∧
      List.Forall₂ (fun t u : LocatedToken =>
        t.1.Alike u.1 ∧ t.2.line + b.count '\n' = u.2.line + b'.count '\n')
        (ts' ++ [(.eof, Span.atPlace q')]) (ts ++ [(.eof, Span.atPlace q)]) := by
  induction h generalizing p' c with
  | @last p blank hblank =>
      refine ⟨[], _, .last hblank, .cons ⟨.eof, ?_⟩ .nil⟩
      have hline := (hp.advanceBlank blank).line
      have hline' := (hp'.advanceBlank blank).line
      simp only [List.count_append] at hline hline'
      show (p'.advanceBlank blank).line + _ = (p.advanceBlank blank).line + _
      omega
  | @token p q blank text rest token ts hblank htoken hrest ih =>
      have hplace := hp.advanceBlank blank
      have hplace' := hp'.advanceBlank blank
      have hline := hplace.line
      have hline' := hplace'.line
      simp only [List.length_append] at hdepth hdepth'
      have hinner (hole : List Char) (hlt : hole.length < text.length) :
          tokenizeNested depth hole = tokenizeNested depth' hole :=
        tokenizeNested_eq (by omega) (by omega)
      obtain ⟨token', htoken', halike⟩ := htoken.moved hinner
        (show 1 ≤ (p.advanceBlank blank).line by omega)
        (show 1 ≤ (p'.advanceBlank blank).line by omega)
      have hnext := hplace.advance text
      have hnext' := hplace'.advance text
      rw [List.append_assoc, List.append_assoc] at hnext hnext'
      obtain ⟨ts', q', hrest', halikes⟩ := ih hnext hnext' (by omega) (by omega)
      refine ⟨_ :: ts', q', .token hblank htoken' hrest', .cons ⟨halike, ?_⟩ halikes⟩
      simp only [List.count_append] at hline hline'
      show (p'.advanceBlank blank).line + _ = (p.advanceBlank blank).line + _
      omega

/-- Tokens that are alike, all of them further down by the same number of lines. -/
theorem sameLayout_of_forall₂
    {m n : Nat}
    (h : List.Forall₂
      (fun t u : LocatedToken => t.1.Alike u.1 ∧ t.2.line + m = u.2.line + n) ts us) :
    SameLayout ts us := by
  induction h with
  | nil =>
      exact .nil
  | @cons t u ts us hhead hrest ih =>
      cases hrest with
      | nil =>
          exact .single hhead.1
      | cons hnext _ =>
          exact .cons hhead.1 (by omega) ih

/-- Before its end, no token of a text is the end. -/
theorem Tokenized.isEof_eq_false
    (h : Tokenized (tokenizeNested depth) p cs ts q) :
    ∀ t ∈ ts, t.1.isEof = false := by
  induction h with
  | last =>
      exact List.forall_mem_nil _
  | @token _ _ _ _ _ token _ _ htoken _ ih =>
      have hne := htoken.ne_eof
      refine List.forall_mem_cons.mpr ⟨?_, ih⟩
      cases token with
      | eof =>
          exact absurd rfl hne
      | _ =>
          rfl

/-- Tokens stand on the lines of the text, in order. -/
theorem Tokenized.ordered
    {before : List Char} (h : Tokenized inner p cs ts q) (hp : p.Behind before) :
    Ordered (ts ++ [(.eof, Span.atPlace q)]) ∧
      ∀ t ∈ ts ++ [(.eof, Span.atPlace q)], p.line ≤ t.2.line ∧ t.2.line ≤ q.line := by
  induction h generalizing before with
  | @last p blank hblank =>
      refine ⟨List.pairwise_singleton _ _, fun t ht => ?_⟩
      cases List.mem_singleton.mp ht
      have hline := (hp.advanceBlank blank).line
      have hstart := hp.line
      rw [List.count_append] at hline
      exact ⟨by show p.line ≤ (p.advanceBlank blank).line; omega, Nat.le_refl _⟩
  | @token p q blank text rest token ts hblank htoken hrest ih =>
      have hplace := hp.advanceBlank blank
      obtain ⟨hordered, hlines⟩ := ih (hplace.advance text)
      have hstart := hp.line
      have hline := hplace.line
      have hline' := (hplace.advance text).line
      have hend := (hrest.behind (hplace.advance text)).line
      simp only [List.count_append] at hline hline' hend
      refine ⟨List.pairwise_cons.mpr ⟨fun t ht => ?_, hordered⟩, fun t ht => ?_⟩
      · have hle := (hlines t ht).1
        show (p.advanceBlank blank).line ≤ t.2.line
        omega
      · rcases List.mem_cons.mp ht with rfl | ht
        · show p.line ≤ (p.advanceBlank blank).line ∧ (p.advanceBlank blank).line ≤ q.line
          omega
        · have hle := hlines t ht
          omega

end Tokens

/-! ### Whole sources -/

/-- A source ends in a block comment that is not closed: behind its last token stand blanks and the
comment. -/
def EndsInComment (source : String) : Prop :=
  ∃ ts front blank comment, tokenize source = .ok ts ∧
    source.toList = front ++ blank ++ '/' :: '*' :: comment ∧
    byteLength front = (ts.dropLast.getLast?.map fun t => t.2.stop).getD 0 ∧
    Blanks false blank ∧ ¬ ['*', '/'] <:+: comment

/-- A source reads the same when other lines stand behind it, and the lines behind read as they do
alone. -/
theorem tokenize_lines
    {s t : String} {ts us : List LocatedToken} (hs : tokenize s = .ok ts) (ht : tokenize t = .ok us)
    (hclosed : ¬ EndsInComment s) :
    ∃ xs ys stop, ts = xs ++ [(.eof, stop)] ∧ tokenize (s ++ "\n" ++ t) = .ok (xs ++ ys) ∧
      SameLayout ys us ∧ (∃ stop', ys.getLast? = some (.eof, stop')) ∧ Ordered (xs ++ ys) ∧
      Ordered us ∧ (∀ x ∈ xs, ∀ y ∈ ys, x.2.line < y.2.line) ∧ ∀ x ∈ xs, x.1.isEof = false := by
  obtain ⟨xs, q, hread, rfl⟩ := tokenize_eq_ok_iff.mp hs
  obtain ⟨zs, r, hread', rfl⟩ := tokenize_eq_ok_iff.mp ht
  have hsource : (s ++ "\n" ++ t).toList = s.toList ++ '\n' :: t.toList := by
    simp
  have hlength := congrArg List.length hsource
  simp only [List.length_append, List.length_cons] at hlength
  have hshort : s.toList.length ≤ (s ++ "\n" ++ t).toList.length := by omega
  have hshort' : t.toList.length ≤ (s ++ "\n" ++ t).toList.length := by omega
  obtain ⟨front, tail, hparts, htail, hstop, hnext⟩ :=
    hread.exists_tail .origin (Nat.le_refl _) hshort
  have hblanks : Blanks false (tail ++ ['\n']) := by
    refine htail.closed_or_open.resolve_right fun hopen => hclosed ?_
    obtain ⟨blank, comment, rfl, hblank, hcomment⟩ := hopen
    refine ⟨_, front, blank, comment, hs, by rw [hparts, List.append_assoc], ?_, hblank, hcomment⟩
    rw [List.dropLast_concat]
    exact hstop.symm
  have hend := hread.behind .origin
  have hline : (q.stepBlank '\n').line = q.line + 1 := rfl
  obtain ⟨ys, r', hmoved, halikes⟩ := hread'.moved (b := []) (c := []) .origin
    (by simpa using hend.stepBlank '\n') (Nat.le_refl _) hshort'
  have hwhole := hnext t.toList ys r' hblanks hmoved
  rw [← hsource] at hwhole
  have hlater := (hmoved.ordered (hend.stepBlank '\n')).2
  have hbefore := (hread.ordered .origin).2
  refine ⟨xs, ys ++ [(.eof, Span.atPlace r')], _, rfl, ?_, sameLayout_of_forall₂ halikes,
    ⟨_, List.getLast?_concat⟩, ?_, (hread'.ordered .origin).1, fun x hx y hy => ?_, fun x hx => ?_⟩
  · exact tokenize_eq_ok_iff.mpr ⟨_, _, hwhole, by rw [List.append_assoc]⟩
  · rw [← List.append_assoc]
    exact (hwhole.ordered .origin).1
  · have hle := (hbefore x (List.mem_append_left _ hx)).2
    have hle' := (hlater y hy).1
    omega
  · exact hread.isEof_eq_false x hx

end ScriptEngine
