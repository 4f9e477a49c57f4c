import ScriptEngine.Proofs.Tokens.Lexemes
import ScriptEngine.Proofs.Tokens.Quotes
import ScriptEngine.Proofs.Tokens.Reading

/-!
# Tokens in a hole

The scan of a hole does not read tokens, but it keeps step with the reading: it passes over names,
numbers, marks and quoted strings, and counts the braces.  What it does not know of are comments and
the holes of nested strings: a double quote in such a hole ends the string for the scan.
-/

namespace ScriptEngine

variable {depth depth' : Nat} {cs text rest : List Char} {c : Char} {l : Lexeme} {token : Token}
variable {inner : List Char → TokenResult} {p : Place}

/-- How deep in braces one is behind a token; a closing brace needs an opening one before it. -/
def nestingAfter (depth : Nat) : Token → Option Nat
  | .mark .leftBrace => some (depth + 1)
  | .mark .rightBrace => if depth = 0 then none else some (depth - 1)
  | _ => some depth

/-- A property of the characters of a given text, from a check of each of them. -/
theorem forall_mem_of_all
    {P : Char → Prop} [DecidablePred P] (h : cs.all (fun c => decide (P c)) = true) :
    ∀ c ∈ cs, P c :=
  fun c hc => of_decide_eq_true (List.all_eq_true.mp h c hc)

/-! ### Numbers -/

/-- The characters of numbers. -/
def isNumberPart (c : Char) : Bool := isNamePart c || c == '.' || c == '+' || c == '-'

/-- The characters of a number. -/
abbrev OfNumber (cs : List Char) : Prop := ∀ c ∈ cs, isNumberPart c = true

theorem isNumberPart_of_isDigit
    (hc : c.isDigit = true) :
    isNumberPart c = true := by
  simp [isNumberPart, isNamePart, Char.isAlphanum, hc]

theorem isNumberPart_of_isHexDigit
    (hc : isHexDigit c = true) :
    isNumberPart c = true := by
  have halphanum : c.isAlphanum = true := by
    simp only [isHexDigit, Bool.or_eq_true, Bool.and_eq_true, decide_eq_true_eq] at hc
    rcases hc with (hdigit | ⟨hstart, hstop⟩) | ⟨hstart, hstop⟩
    · exact Bool.or_eq_true_iff.mpr (.inr hdigit)
    · have hlower : c.isLower = true :=
        Bool.and_eq_true_iff.mpr
          ⟨decide_eq_true hstart, decide_eq_true (Char.le_trans hstop (by decide))⟩
      exact Bool.or_eq_true_iff.mpr (.inl (Bool.or_eq_true_iff.mpr (.inr hlower)))
    · have hupper : c.isUpper = true :=
        decide_eq_true ⟨hstart, Char.le_trans hstop (by decide)⟩
      exact Bool.or_eq_true_iff.mpr (.inl (Bool.or_eq_true_iff.mpr (.inl hupper)))
  simp [isNumberPart, isNamePart, halphanum]

theorem isNumberPart_of_isBinaryDigit
    (hc : isBinaryDigit c = true) :
    isNumberPart c = true := by
  rcases Bool.or_eq_true_iff.mp hc with hc | hc
  · cases beq_iff_eq.mp hc
    decide
  · cases beq_iff_eq.mp hc
    decide

theorem ofNumber_moreDigits
    {p : Char → Bool} (hp : ∀ c, p c = true → isNumberPart c = true) (cs : List Char) :
    OfNumber (moreDigits p cs).1 := by
  fun_induction moreDigits p cs with
  | case1 d r hd q ih =>
      exact List.forall_mem_cons.mpr ⟨by decide, List.forall_mem_cons.mpr ⟨hp d hd, ih⟩⟩
  | case3 d r _ hd q ih =>
      exact List.forall_mem_cons.mpr ⟨hp d hd, ih⟩
  | case2 | case4 | case5 =>
      exact List.forall_mem_nil _

theorem ofNumber_digitGroups
    {p : Char → Bool} (hp : ∀ c, p c = true → isNumberPart c = true) (cs : List Char) :
    OfNumber (digitGroups p cs).1 := by
  fun_cases digitGroups p cs with
  | case1 d r hd q =>
      exact List.forall_mem_cons.mpr ⟨hp d hd, ofNumber_moreDigits hp r⟩
  | case2 | case3 =>
      exact List.forall_mem_nil _

theorem ofNumber_signedDigits
    (cs : List Char) :
    OfNumber (signedDigits cs).1 := by
  have hsign : OfNumber (signText cs).1 := by
    fun_cases signText cs with
    | case1 c r hc =>
        rcases hc with rfl | rfl
        · exact forall_mem_of_all rfl
        · exact forall_mem_of_all rfl
    | case2 | case3 =>
        exact List.forall_mem_nil _
  have hdigits : OfNumber ((signText cs).2.takeWhile Char.isDigit) := fun c hc =>
    isNumberPart_of_isDigit (List.mem_takeWhile_imp hc)
  rw [signedDigits]
  split
  · exact List.forall_mem_nil _
  · exact List.forall_mem_append.mpr ⟨hsign, hdigits⟩

/-- A scanner after a given character, as in fractions and exponents. -/
theorem ofNumber_after
    {p : Char → Bool} (hp : ∀ c, p c = true → isNumberPart c = true)
    {taken rest : List Char} (htaken : OfNumber taken) (c : Char) (r : List Char) :
    OfNumber (if p c && !taken.isEmpty then (c :: taken, rest) else ([], c :: r)).1 := by
  split
  · next h =>
      exact List.forall_mem_cons.mpr ⟨hp c (Bool.and_eq_true_iff.mp h).1, htaken⟩
  · exact List.forall_mem_nil _

theorem ofNumber_fractionText
    (cs : List Char) :
    OfNumber (fractionText cs).1 := by
  rw [fractionText_eq]
  cases cs with
  | nil =>
      exact List.forall_mem_nil _
  | cons c r =>
      refine ofNumber_after (p := (· == '.')) (fun c hc => ?_)
        (ofNumber_digitGroups (fun _ => isNumberPart_of_isDigit) r) c r
      simp [isNumberPart, hc]

theorem ofNumber_exponentText
    (cs : List Char) :
    OfNumber (exponentText cs).1 := by
  rw [exponentText_eq]
  cases cs with
  | nil =>
      exact List.forall_mem_nil _
  | cons c r =>
      refine ofNumber_after (p := fun c => c == 'e' || c == 'E') (fun c hc => ?_)
        (ofNumber_signedDigits r) c r
      rcases Bool.or_eq_true_iff.mp hc with hc | hc
      · cases beq_iff_eq.mp hc
        decide
      · cases beq_iff_eq.mp hc
        decide

theorem ofNumber_decimalLexeme
    (cs : List Char) :
    OfNumber (decimalLexeme cs).taken := by
  have hdigits := ofNumber_digitGroups (fun _ => isNumberPart_of_isDigit) cs
  unfold decimalLexeme
  dsimp only
  split
  · exact List.forall_mem_append.mpr ⟨hdigits, forall_mem_of_all rfl⟩
  · rw [pointedLexeme_taken]
    refine List.forall_mem_append.mpr ⟨List.forall_mem_append.mpr ⟨hdigits, ?_⟩, ?_⟩
    · exact ofNumber_fractionText _
    · exact ofNumber_exponentText _

theorem ofNumber_numberLexeme
    (cs : List Char) :
    OfNumber (numberLexeme cs).taken := by
  have hbased {p : Char → Bool} (hp : ∀ c, p c = true → isNumberPart c = true) {start : List Char}
      (hstart : OfNumber start) (r : List Char) (base : Nat) :
      OfNumber (basedLexeme start (digitGroups p r) base).taken :=
    List.forall_mem_append.mpr ⟨hstart, ofNumber_digitGroups hp r⟩
  rw [numberLexeme_eq]
  split
  · split
    · exact ofNumber_decimalLexeme _
    · exact hbased (fun _ => isNumberPart_of_isHexDigit) (forall_mem_of_all rfl) _ 16
  · split
    · exact ofNumber_decimalLexeme _
    · exact hbased (fun _ => isNumberPart_of_isBinaryDigit) (forall_mem_of_all rfl) _ 2
  · exact ofNumber_decimalLexeme _

theorem not_mem_holeMarks
    (hc : isNumberPart c = true) :
    c ∉ holeMarks := by
  have hmarks : ∀ d ∈ holeMarks, isNumberPart d = false := forall_mem_of_all rfl
  intro hmem
  cases hc.symm.trans (hmarks c hmem)

theorem OfNumber.skims
    (h : OfNumber cs) :
    Skims depth none cs depth none :=
  .plains fun c hc => not_mem_holeMarks (h c hc)

theorem nestingAfter_of_number
    (h : (numberLexeme cs).token = .ok token) :
    nestingAfter depth token = some depth := by
  rcases exists_number h with ⟨n, rfl⟩ | ⟨v, rfl⟩
  · rfl
  · rfl

/-! ### Words and marks -/

theorem skims_word
    (cs : List Char) :
    Skims depth none (cs.takeWhile isNamePart) depth none := by
  refine OfNumber.skims fun c hc => ?_
  simp [isNumberPart, List.mem_takeWhile_imp hc]

theorem nestingAfter_wordToken
    (word : List Char) :
    nestingAfter depth (wordToken word) = some depth := by
  unfold wordToken
  split
  · rfl
  · rfl

/-- Braces count in the scan of a hole as they do among tokens. -/
theorem Mark.skims
    (m : Mark) (h : nestingAfter depth (.mark m) = some depth') :
    Skims depth none m.text.toList depth' none := by
  cases m with
  | leftBrace =>
      cases h
      exact .openBrace
  | rightBrace =>
      cases depth with
      | zero =>
          cases h
      | succ depth =>
          cases h
          exact .closeBrace
  | _ =>
      cases h
      exact .plains (forall_mem_of_all rfl)

/-! ### Quoted strings -/

theorem skims_singleQuoted
    (h : (singleQuoted cs).2.2 = true) :
    Skims depth (some '\'') ((singleQuoted cs).1 ++ ['\'']) depth none := by
  fun_induction singleQuoted cs with
  | case1 | case3 | case4 =>
      cases h
  | case2 =>
      exact .unquote (by decide)
  | case5 c r hc q ih =>
      exact Skims.escape.append (ih h)
  | case6 c r hquote hlone hslash q ih =>
      have hescape : c ≠ '\\' := ne_backslash hlone hslash
      exact (Skims.inside hescape hquote).cons (ih h)

/-- Without a double quote a hole is a piece of the string for the scan. -/
theorem skims_hole
    (h : '"' ∉ cs) :
    Skims depth (some '"') (cs ++ ['}']) depth (some '"') := by
  -- the escapes of a raw text, whatever they stand for, are those of the scan
  fun_induction unescape cs with
  | case1 =>
      exact .inside (by decide) (by decide)
  | case2 =>
      exact .escape
  | case3 c r ih =>
      exact Skims.escape.append (ih fun hr => h (by simp [hr]))
  | case4 c r hlone hslash ih =>
      have hescape : c ≠ '\\' := ne_backslash hlone hslash
      have hquote : c ≠ '"' := fun hc => h (by simp [hc])
      exact (Skims.inside hescape hquote).cons (ih fun hr => h (by simp [hr]))

/-- The parts of a string are a string for the scan, if no double quote stands in a hole. -/
theorem skims_quotedParts
    (h : (quotedParts cs).2 = .closed rest)
    (hholes : ∀ hole, .hole hole ∈ (quotedParts cs).1 → '"' ∉ hole) :
    Skims depth (some '"') ((quotedParts cs).1.flatMap RawPart.chars) depth (some '"') := by
  fun_induction quotedParts cs with
  | case1 | case4 =>
      cases h
  | case2 r =>
      exact .nil
  | case3 c r p ih =>
      rw [flatMap_consRaw]
      exact Skims.escape.append (ih h fun hole hmem => hholes hole (mem_consRaw.mpr hmem))
  | case5 r hole rest' hsplit p ih =>
      have hstart : Skims depth (some '"') ['#', '{'] depth (some '"') :=
        (Skims.inside (by decide) (by decide)).cons (.inside (by decide) (by decide))
      have hhole : Skims depth (some '"') (hole ++ ['}']) depth (some '"') :=
        skims_hole (hholes hole List.mem_cons_self)
      have hrest := ih h fun hole hmem => hholes hole (List.mem_cons_of_mem _ hmem)
      exact (hstart.append hhole).append hrest
  | case6 c r hquote hescape hhole p ih =>
      have happend := append_of_closed h
      have hlast : r ≠ [] := happend ▸ List.append_ne_nil_of_right_ne_nil _ (List.cons_ne_nil _ _)
      have hback : c ≠ '\\' := ne_backslash (fun _ => hlast) hescape
      rw [flatMap_consRaw]
      exact (Skims.inside hback hquote).append
        (ih h fun hole hmem => hholes hole (mem_consRaw.mpr hmem))

/-! ### Tokens -/

/-- The scan of a hole passes over a lexeme. -/
theorem IsLexeme.skims
    (h : IsLexeme cs l) (htoken : l.token = .ok token)
    (hdepth : nestingAfter depth token = some depth') :
    Skims depth none l.taken depth' none := by
  cases h with
  | @word c r hname =>
      cases htoken
      cases (nestingAfter_wordToken _).symm.trans hdepth
      exact skims_word (c :: r)
  | number hname hdigit =>
      cases (nestingAfter_of_number htoken).symm.trans hdepth
      exact (ofNumber_numberLexeme _).skims
  | quoted hclosed =>
      cases htoken
      cases hdepth
      exact (Skims.enquote (.inr rfl)).cons (skims_singleQuoted hclosed)
  | mark hname hdigit hquote hmark =>
      obtain ⟨m, rest, rfl⟩ := exists_mark hmark
      cases htoken
      exact m.skims hdepth
  | unclosed | unexpected =>
      cases htoken

/-- The scan of a hole passes over a token, if no double quote stands in a hole of it. -/
theorem TokenAt.skims
    (h : TokenAt inner p text token rest) (hdepth : nestingAfter depth token = some depth')
    (hholes : ∀ body, text = '"' :: body →
      ∀ hole, .hole hole ∈ (quotedParts body).1 → '"' ∉ hole) :
    Skims depth none text depth' none := by
  cases h with
  | @quoted text _ _ hquoted =>
      obtain ⟨hclosed, hvalue⟩ := quotedToken_eq_ok_iff.mp hquoted
      have halone := quotedParts_alone hclosed
      have hclosed' : (quotedParts text).2 = .closed [] := congrArg Prod.snd halone
      have hsame : depth' = depth := by
        rcases exists_string hvalue with ⟨s, rfl⟩ | ⟨parts, rfl⟩
        · exact (Option.some.inj hdepth).symm
        · exact (Option.some.inj hdepth).symm
      subst hsame
      have hbody : Skims depth' (some '"') (_ ++ ['"']) depth' none :=
        (skims_quotedParts hclosed' (hholes text rfl)).append (.unquote (by decide))
      rw [append_of_closed hclosed'] at hbody
      exact (Skims.enquote (.inl rfl)).cons hbody
  | lexeme hne hquote hlexeme =>
      exact (isLexeme_of_lexeme hne hlexeme).skims rfl hdepth

end ScriptEngine
