import Mathlib.Data.List.Infix
import Mathlib.Data.List.TakeWhile
import ScriptEngine.Token.Lexeme

/-!
# Lexemes on their own

A scanner takes the front of a text.  All scanners here look only at what they take and at whether
it goes on: of a text that is cut off somewhere behind what they take, they take the same (`Scans`).
So a lexeme that is read on its own is the same lexeme (`lexeme_alone`).
-/

namespace ScriptEngine

/-- A scanner takes the front of a text, and the same of a text that ends earlier behind it. -/
structure Scans (f : List Char → List Char × List Char) : Prop where
  append : ∀ cs, (f cs).1 ++ (f cs).2 = cs
  cut : ∀ cs x, x <+: (f cs).2 → f ((f cs).1 ++ x) = ((f cs).1, x)

variable {p : Char → Bool} {f g : List Char → List Char × List Char} {cs x : List Char}

namespace Scans

/-- A scanner that takes nothing takes nothing of the front of the text. -/
theorem of_front
    (h : Scans f) (hnil : (f cs).1 = []) (hx : x <+: cs) :
    f x = ([], x) := by
  have happend := h.append cs
  have hcut := h.cut cs x
  rw [hnil, List.nil_append] at happend hcut
  exact hcut (by rwa [happend])

theorem append_eq
    {taken rest : List Char} (h : Scans f) (heq : f cs = (taken, rest)) :
    taken ++ rest = cs := by
  have happend := h.append cs
  rwa [heq] at happend

theorem cut_eq
    {taken rest : List Char} (h : Scans f) (heq : f cs = (taken, rest)) (hx : x <+: rest) :
    f (taken ++ x) = (taken, x) := by
  have hcut := h.cut cs x
  rw [heq] at hcut
  exact hcut hx

/-- What a scanner takes it takes on its own. -/
theorem alone_eq
    {taken rest : List Char} (h : Scans f) (heq : f cs = (taken, rest)) :
    f taken = (taken, []) := by
  simpa using h.cut_eq heq List.nil_prefix

theorem alone
    (h : Scans f) (cs : List Char) :
    f (f cs).1 = ((f cs).1, []) :=
  h.alone_eq rfl

/-- What a scanner takes, with the front of what it leaves, is the front of the text. -/
theorem prefix_of_rest
    (h : Scans f) (hx : x <+: (f cs).2) :
    (f cs).1 ++ x <+: cs := by
  conv_rhs => rw [← h.append cs]
  exact (List.prefix_append_right_inj _).mpr hx

/-- A scanner after another one. -/
theorem followed
    (hf : Scans f) (hg : Scans g) :
    Scans fun cs => ((f cs).1 ++ (g (f cs).2).1, (g (f cs).2).2) where
  append := fun cs => by
    rw [List.append_assoc, hg.append, hf.append]
  cut := fun cs x hx => by
    rw [List.append_assoc, hf.cut _ _ (hg.prefix_of_rest hx), hg.cut _ _ hx]

/-- A scanner after a given character, if it takes something. -/
theorem after
    (hf : Scans f) (p : Char → Bool) :
    Scans fun
      | c :: r => if p c && !(f r).1.isEmpty then (c :: (f r).1, (f r).2) else ([], c :: r)
      | [] => ([], []) where
  append := fun cs => by
    cases cs with
    | nil =>
        rfl
    | cons c r =>
        dsimp only
        split
        · exact congrArg (c :: ·) (hf.append r)
        · rfl
  cut := fun cs x hx => by
    cases cs with
    | nil =>
        cases List.prefix_nil.mp hx
        rfl
    | cons c r =>
        dsimp only at hx ⊢
        split at hx
        · next hc =>
            rw [if_pos hc, List.cons_append]
            dsimp only
            rw [hf.cut r x hx, if_pos hc]
        · next hc =>
            rw [if_neg hc, List.nil_append]
            cases x with
            | nil =>
                rfl
            | cons d y =>
                obtain ⟨rfl, hy⟩ := List.cons_prefix_cons.mp hx
                refine if_neg fun hd => hc ?_
                obtain ⟨hp, hsome⟩ := Bool.and_eq_true_iff.mp hd
                refine Bool.and_eq_true_iff.mpr ⟨hp, ?_⟩
                cases hnil : (f r).1 with
                | cons _ _ =>
                    rfl
                | nil =>
                    rw [hf.of_front hnil hy] at hsome
                    cases hsome

end Scans

theorem scans_takeWhile
    (p : Char → Bool) :
    Scans fun cs => (cs.takeWhile p, cs.dropWhile p) where
  append := fun cs => List.takeWhile_append_dropWhile
  cut := fun cs x hx => by
    have hall : ∀ c ∈ cs.takeWhile p, p c = true := fun c => List.mem_takeWhile_imp
    dsimp only at hx ⊢
    rw [List.takeWhile_append_of_pos hall, List.dropWhile_append_of_pos hall]
    have hstop : x.takeWhile p = [] ∧ x.dropWhile p = x := by
      cases x with
      | nil =>
          exact ⟨rfl, rfl⟩
      | cons c y =>
          obtain ⟨z, hz⟩ := hx
          have hc : p c = false := by
            have := List.head?_dropWhile_not p cs
            rw [← hz] at this
            simpa using this
          simp [hc]
    rw [hstop.1, hstop.2, List.append_nil]

/-! ### Numbers -/

/-- Digit groups go on with a digit, or with an underscore that has one behind it. -/
theorem moreDigits_eq_nil
    {c : Char} {r : List Char} (hc : p c = false)
    (hgroup : ∀ d z, c = '_' → r = d :: z → p d = false) :
    moreDigits p (c :: r) = ([], c :: r) := by
  generalize hcs : c :: r = cs
  fun_cases moreDigits p cs with
  | case1 d z hd =>
      cases hcs
      cases (hgroup d z rfl rfl).symm.trans hd
  | case3 d z _ hd =>
      cases hcs
      cases hc.symm.trans hd
  | case2 | case4 | case5 =>
      rfl

theorem scans_moreDigits
    (hp : p '_' = false) :
    Scans (moreDigits p) where
  append := fun cs => by
    fun_induction moreDigits p cs with
    | case1 d r hd q ih =>
        exact congrArg ('_' :: d :: ·) ih
    | case3 c r _ hc q ih =>
        exact congrArg (c :: ·) ih
    | case2 | case4 | case5 =>
        rfl
  cut := fun cs x hx => by
    fun_induction moreDigits p cs with
    | case1 d r hd q ih =>
        show moreDigits p ('_' :: d :: (q.1 ++ x)) = ('_' :: d :: q.1, x)
        rw [moreDigits, if_pos hd, ih hx]
    | case2 d r hd =>
        cases x with
        | nil =>
            rfl
        | cons c y =>
            obtain ⟨rfl, hy⟩ := List.cons_prefix_cons.mp hx
            refine moreDigits_eq_nil hp fun d' z _ heq => ?_
            subst heq
            obtain ⟨rfl, -⟩ := List.cons_prefix_cons.mp hy
            simpa using hd
    | case3 c r hgroup hc q ih =>
        show moreDigits p (c :: (q.1 ++ x)) = (c :: q.1, x)
        rw [moreDigits, if_pos hc, ih hx]
        rintro d z rfl
        cases hp.symm.trans hc
    | case4 c r hgroup hc =>
        cases x with
        | nil =>
            rfl
        | cons d y =>
            obtain ⟨rfl, hy⟩ := List.cons_prefix_cons.mp hx
            refine moreDigits_eq_nil (by simpa using hc) fun e z hd heq => ?_
            subst heq
            obtain ⟨w, rfl⟩ := hy
            exact absurd rfl (hgroup _ _ hd)
    | case5 =>
        cases List.prefix_nil.mp hx
        rfl

theorem scans_digitGroups
    (hp : p '_' = false) :
    Scans (digitGroups p) where
  append := fun cs => by
    fun_cases digitGroups p cs with
    | case1 c r hc q =>
        exact congrArg (c :: ·) ((scans_moreDigits hp).append r)
    | case2 | case3 =>
        rfl
  cut := fun cs x => by
    fun_cases digitGroups p cs with
    | case1 c r hc q =>
        intro hx
        show digitGroups p (c :: (q.1 ++ x)) = (c :: q.1, x)
        rw [digitGroups, if_pos hc, (scans_moreDigits hp).cut r x hx]
    | case2 c r hc =>
        intro hx
        cases x with
        | nil =>
            rfl
        | cons d y =>
            obtain ⟨rfl, -⟩ := List.cons_prefix_cons.mp hx
            exact if_neg hc
    | case3 =>
        intro hx
        cases List.prefix_nil.mp hx
        rfl

/-- The sign of an exponent. -/
def signText : List Char → List Char × List Char
  | c :: r => if c = '+' ∨ c = '-' then ([c], r) else ([], c :: r)
  | [] => ([], [])

/-- The digits of an exponent with their sign, if there are digits. -/
def signedDigits (cs : List Char) : List Char × List Char :=
  let digits := (signText cs).2.takeWhile Char.isDigit
  if digits.isEmpty then ([], cs)
  else ((signText cs).1 ++ digits, (signText cs).2.dropWhile Char.isDigit)

theorem isEmpty_signedDigits
    (cs : List Char) :
    (signedDigits cs).1.isEmpty = ((signText cs).2.takeWhile Char.isDigit).isEmpty := by
  rw [signedDigits]
  cases hdigits : ((signText cs).2.takeWhile Char.isDigit).isEmpty with
  | true =>
      rfl
  | false =>
      have hne : (signText cs).2.takeWhile Char.isDigit ≠ [] := fun h => by
        rw [h] at hdigits
        cases hdigits
      rw [if_neg (by simp), List.isEmpty_eq_false_iff]
      exact List.append_ne_nil_of_right_ne_nil _ hne

theorem exponentText_eq
    (cs : List Char) :
    exponentText cs =
      match cs with
      | c :: r =>
        if (c == 'e' || c == 'E') && !(signedDigits r).1.isEmpty then
          (c :: (signedDigits r).1, (signedDigits r).2)
        else ([], c :: r)
      | [] => ([], []) := by
  cases cs with
  | nil =>
      rfl
  | cons c r =>
      have hsign : (match r with
          | d :: r' => if d = '+' ∨ d = '-' then ([d], r') else ([], r)
          | [] => ([], [])) = signText r := by
        cases r with
        | nil | cons =>
            rfl
      have hexponent : exponentText (c :: r) =
          if c = 'e' ∨ c = 'E' then
            if ((signText r).2.takeWhile Char.isDigit).isEmpty then ([], c :: r)
            else (c :: (signText r).1 ++ (signText r).2.takeWhile Char.isDigit,
              (signText r).2.dropWhile Char.isDigit)
          else ([], c :: r) := by
        rw [← hsign]
        rfl
      have hempty := isEmpty_signedDigits r
      rw [hexponent]
      cases hdigits : ((signText r).2.takeWhile Char.isDigit).isEmpty with
      | true =>
          simp [hempty, hdigits]
      | false =>
          simp only [hempty, hdigits, Bool.not_false, Bool.and_true, Bool.or_eq_true, beq_iff_eq]
          simp [signedDigits, hdigits]

theorem fractionText_eq
    (cs : List Char) :
    fractionText cs =
      match cs with
      | c :: r =>
        if c == '.' && !(digitGroups Char.isDigit r).1.isEmpty then
          (c :: (digitGroups Char.isDigit r).1, (digitGroups Char.isDigit r).2)
        else ([], c :: r)
      | [] => ([], []) := by
  fun_cases fractionText cs with
  | case1 r q hq | case2 r q hq =>
      simp [q, hq]
  | case3 cs hdot =>
      cases cs with
      | nil =>
          rfl
      | cons c r =>
          have hc : c ≠ '.' := fun hc => hdot r (hc ▸ rfl)
          simp [hc]

theorem scans_signText :
    Scans signText where
  append := fun cs => by
    fun_cases signText cs with
    | case1 | case2 | case3 =>
        rfl
  cut := fun cs x => by
    fun_cases signText cs with
    | case1 c r hc =>
        exact fun _ => if_pos hc
    | case2 c r hc =>
        intro hx
        cases x with
        | nil =>
            rfl
        | cons d y =>
            obtain ⟨rfl, -⟩ := List.cons_prefix_cons.mp hx
            exact if_neg hc
    | case3 =>
        intro hx
        cases List.prefix_nil.mp hx
        rfl

theorem scans_signedDigits :
    Scans signedDigits where
  append := fun cs => by
    rw [signedDigits]
    split
    · rfl
    · exact (scans_signText.followed (scans_takeWhile Char.isDigit)).append cs
  cut := fun cs x hx => by
    have hnone {y : List Char} (hy : ((signText y).2.takeWhile Char.isDigit).isEmpty = true) :
        signedDigits y = ([], y) := if_pos hy
    have hsome {y : List Char} (hy : ((signText y).2.takeWhile Char.isDigit).isEmpty = false) :
        signedDigits y = ((signText y).1 ++ (signText y).2.takeWhile Char.isDigit,
          (signText y).2.dropWhile Char.isDigit) := if_neg (by simpa using hy)
    cases hdigits : ((signText cs).2.takeWhile Char.isDigit).isEmpty with
    | true =>
        rw [hnone hdigits] at hx ⊢
        refine hnone ?_
        have hstop {y : List Char} (hy : y <+: (signText cs).2) :=
          (scans_takeWhile Char.isDigit).of_front (List.isEmpty_iff.mp hdigits) hy
        fun_cases signText x with
        | case1 c r hc =>
            obtain ⟨w, rfl⟩ := hx
            rw [List.cons_append, signText, if_pos hc] at hstop
            exact List.isEmpty_iff.mpr (congrArg Prod.fst (hstop (List.prefix_append r w)))
        | case2 c r hc =>
            obtain ⟨w, rfl⟩ := hx
            rw [List.cons_append, signText, if_neg hc] at hstop
            refine List.isEmpty_iff.mpr (congrArg Prod.fst (hstop (y := c :: r) ?_))
            exact List.prefix_append (c :: r) w
        | case3 =>
            rfl
    | false =>
        rw [hsome hdigits] at hx ⊢
        have hrun := (scans_takeWhile Char.isDigit).cut _ _ hx
        have hsign := scans_signText.cut cs _ ((scans_takeWhile Char.isDigit).prefix_of_rest hx)
        obtain ⟨htaken, hleft⟩ := Prod.mk.inj hrun
        rw [List.append_assoc, hsome, hsign, htaken, hleft]
        rw [hsign, htaken]
        exact hdigits

theorem scans_exponentText :
    Scans exponentText :=
  funext exponentText_eq ▸ scans_signedDigits.after fun c => c == 'e' || c == 'E'

theorem scans_fractionText :
    Scans fractionText :=
  funext fractionText_eq ▸ (scans_digitGroups (by decide)).after (· == '.')

/-- A number in a given base, behind its mark. -/
def basedLexeme (start : List Char) (q : List Char × List Char) (base : Nat) : Lexeme :=
  ⟨start ++ q.1, q.2, intToken (start ++ q.1) (groupsValue base q.1)⟩

/-- A whole number that ends in an underscore. -/
def spacedLexeme (digits rest : List Char) : Lexeme :=
  ⟨digits ++ ['_'], rest, intToken (digits ++ ['_']) (groupsValue 10 (digits ++ ['_']))⟩

/-- The digits, the fraction and the exponent of a decimal number, and the rest. -/
def pointedLexeme (digits fraction exponent rest : List Char) : Lexeme :=
  let taken := digits ++ fraction ++ exponent
  if fraction.isEmpty && exponent.isEmpty then
    ⟨taken, rest, intToken taken (groupsValue 10 taken)⟩
  else
    ⟨taken, rest, .ok (.float ((Decimal.readUnsigned? false (taken.filter (· != '_'))).getD ⟨0⟩))⟩

/-- A decimal number. -/
def decimalLexeme (cs : List Char) : Lexeme :=
  let whole := digitGroups Char.isDigit cs
  match whole.2 with
  | '_' :: r => spacedLexeme whole.1 r
  | _ =>
    let frac := fractionText whole.2
    let expo := exponentText frac.2
    pointedLexeme whole.1 frac.1 expo.1 expo.2

theorem numberLexeme_eq
    (cs : List Char) :
    numberLexeme cs =
      match cs with
      | '0' :: 'x' :: r =>
        if (digitGroups isHexDigit r).1.isEmpty then decimalLexeme cs
        else basedLexeme ['0', 'x'] (digitGroups isHexDigit r) 16
      | '0' :: 'b' :: r =>
        if (digitGroups isBinaryDigit r).1.isEmpty then decimalLexeme cs
        else basedLexeme ['0', 'b'] (digitGroups isBinaryDigit r) 2
      | _ => decimalLexeme cs := by
  rfl

/-- A lexeme that is cut off right behind what it takes. -/
def Lexeme.alone (l : Lexeme) : Lexeme := { l with rest := [] }

section Decimal

variable (digits fraction exponent rest : List Char)

@[simp]
theorem pointedLexeme_taken :
    (pointedLexeme digits fraction exponent rest).taken = digits ++ fraction ++ exponent := by
  unfold pointedLexeme
  dsimp only
  split
  · rfl
  · rfl

@[simp]
theorem pointedLexeme_rest :
    (pointedLexeme digits fraction exponent rest).rest = rest := by
  unfold pointedLexeme
  dsimp only
  split
  · rfl
  · rfl

theorem pointedLexeme_alone :
    (pointedLexeme digits fraction exponent rest).alone =
      pointedLexeme digits fraction exponent [] := by
  unfold pointedLexeme
  dsimp only
  split
  · rfl
  · rfl

end Decimal

section

variable {digits rest fraction exponent point : List Char}

theorem decimalLexeme_of_underscore
    (hdigits : digitGroups Char.isDigit cs = (digits, '_' :: rest)) :
    decimalLexeme cs = spacedLexeme digits rest := by
  unfold decimalLexeme
  dsimp only
  rw [hdigits]
  rfl

theorem decimalLexeme_of_ne
    (hdigits : digitGroups Char.isDigit cs = (digits, point))
    (hne : ∀ r, point ≠ '_' :: r) {behind : List Char}
    (hfraction : fractionText point = (fraction, behind))
    (hexponent : exponentText behind = (exponent, rest)) :
    decimalLexeme cs = pointedLexeme digits fraction exponent rest := by
  unfold decimalLexeme
  dsimp only
  rw [hdigits]
  dsimp only
  split
  · next r =>
      exact absurd rfl (hne r)
  · rw [hfraction, hexponent]

end

/-- A decimal number takes the front of a text, and is the same on its own. -/
theorem decimalLexeme_front
    (cs : List Char) :
    (decimalLexeme cs).taken ++ (decimalLexeme cs).rest = cs ∧
      decimalLexeme (decimalLexeme cs).taken = (decimalLexeme cs).alone := by
  have hdigits := scans_digitGroups (p := Char.isDigit) (by decide)
  cases hwhole : digitGroups Char.isDigit cs with
  | mk digits point =>
      have happend := hdigits.append_eq hwhole
      by_cases hspaced : ∃ r, point = '_' :: r
      · obtain ⟨r, rfl⟩ := hspaced
        have hcut := hdigits.cut_eq hwhole (List.prefix_append ['_'] r)
        rw [decimalLexeme_of_underscore hwhole]
        refine ⟨?_, decimalLexeme_of_underscore hcut⟩
        simpa [spacedLexeme] using happend
      · have hne (r : List Char) : point ≠ '_' :: r := fun hr => hspaced ⟨r, hr⟩
        cases hfraction : fractionText point with
        | mk fraction behind =>
            cases hexponent : exponentText behind with
            | mk exponent rest =>
                have hpoint := scans_fractionText.append_eq hfraction
                have hbehind := scans_exponentText.append_eq hexponent
                subst hbehind
                have hprefix : fraction ++ exponent <+: point := by
                  simp [← hpoint, ← List.append_assoc]
                have hne' (r : List Char) : fraction ++ exponent ≠ '_' :: r := fun hr => by
                  obtain ⟨z, hz⟩ := hr ▸ hprefix
                  exact hne _ hz.symm
                rw [decimalLexeme_of_ne hwhole hne hfraction hexponent, pointedLexeme_taken,
                  pointedLexeme_rest, pointedLexeme_alone]
                constructor
                · rw [← happend, ← hpoint]
                  simp
                · rw [List.append_assoc]
                  exact decimalLexeme_of_ne (hdigits.cut_eq hwhole hprefix) hne'
                    (scans_fractionText.cut_eq hfraction (List.prefix_append _ _))
                    (scans_exponentText.alone_eq hexponent)

/-- No digits of another base stand behind its mark at the start of a text. -/
def PlainNumber (cs : List Char) : Prop :=
  (∀ r, cs = '0' :: 'x' :: r → (digitGroups isHexDigit r).1 = []) ∧
    ∀ r, cs = '0' :: 'b' :: r → (digitGroups isBinaryDigit r).1 = []

theorem PlainNumber.of_front
    (h : PlainNumber cs) (hx : x <+: cs) :
    PlainNumber x := by
  obtain ⟨z, rfl⟩ := hx
  constructor
  · rintro r rfl
    exact congrArg Prod.fst
      ((scans_digitGroups (by decide)).of_front (h.1 _ rfl) (List.prefix_append r z))
  · rintro r rfl
    exact congrArg Prod.fst
      ((scans_digitGroups (by decide)).of_front (h.2 _ rfl) (List.prefix_append r z))

theorem PlainNumber.numberLexeme_eq
    (h : PlainNumber cs) :
    numberLexeme cs = decimalLexeme cs := by
  rw [ScriptEngine.numberLexeme_eq]
  split
  · next r =>
      rw [h.1 r rfl]
      rfl
  · next r =>
      rw [h.2 r rfl]
      rfl
  · rfl

/-- A number in another base takes the front of a text, and is the same on its own. -/
theorem basedLexeme_front
    {start : List Char} {base : Nat} (hp : p '_' = false)
    (hread : ∀ r, (digitGroups p r).1 ≠ [] →
      numberLexeme (start ++ r) = basedLexeme start (digitGroups p r) base)
    {r : List Char} (hr : (digitGroups p r).1 ≠ []) :
    (numberLexeme (start ++ r)).taken ++ (numberLexeme (start ++ r)).rest = start ++ r ∧
      numberLexeme (numberLexeme (start ++ r)).taken = (numberLexeme (start ++ r)).alone := by
  rw [hread r hr]
  cases hdigits : digitGroups p r with
  | mk digits rest =>
      have halone := (scans_digitGroups hp).alone_eq hdigits
      rw [hdigits] at hr
      constructor
      · show (start ++ digits) ++ rest = start ++ r
        rw [List.append_assoc, (scans_digitGroups hp).append_eq hdigits]
      · show numberLexeme (start ++ digits) = _
        rw [hread digits (by rwa [halone]), halone]
        rfl

/-- A number takes the front of a text, and is the same on its own. -/
theorem numberLexeme_front
    (cs : List Char) :
    (numberLexeme cs).taken ++ (numberLexeme cs).rest = cs ∧
      numberLexeme (numberLexeme cs).taken = (numberLexeme cs).alone := by
  by_cases hplain : PlainNumber cs
  · obtain ⟨happend, halone⟩ := decimalLexeme_front cs
    have hprefix : (decimalLexeme cs).taken <+: cs := ⟨_, happend⟩
    rw [hplain.numberLexeme_eq, (hplain.of_front hprefix).numberLexeme_eq]
    exact ⟨happend, halone⟩
  · rcases not_and_or.mp hplain with hhex | hbinary
    · obtain ⟨r, hr⟩ := not_forall.mp hhex
      obtain ⟨rfl, hdigits⟩ := Classical.not_imp.mp hr
      have hread (r : List Char) (hr : (digitGroups isHexDigit r).1 ≠ []) :
          numberLexeme (['0', 'x'] ++ r) = basedLexeme ['0', 'x'] (digitGroups isHexDigit r) 16 :=
        if_neg (by simpa using hr)
      exact basedLexeme_front (by decide) hread hdigits
    · obtain ⟨r, hr⟩ := not_forall.mp hbinary
      obtain ⟨rfl, hdigits⟩ := Classical.not_imp.mp hr
      have hread (r : List Char) (hr : (digitGroups isBinaryDigit r).1 ≠ []) :
          numberLexeme (['0', 'b'] ++ r) = basedLexeme ['0', 'b'] (digitGroups isBinaryDigit r) 2 :=
        if_neg (by simpa using hr)
      exact basedLexeme_front (by decide) hread hdigits

/-! ### Single-quoted strings -/

/-- What neither is a backslash at the end nor escapes a character is no backslash. -/
theorem ne_backslash
    {c : Char} (hlast : c = '\\' → cs ≠ []) (hescape : ∀ d z, c = '\\' → cs ≠ d :: z) :
    c ≠ '\\' := by
  intro hc
  cases cs with
  | nil =>
      exact hlast hc rfl
  | cons d z =>
      exact hescape d z hc rfl

/-- A single-quoted string takes its raw text, and its closing quote if there is one. -/
theorem singleQuoted_append
    (cs : List Char) :
    (singleQuoted cs).1 ++ (if (singleQuoted cs).2.2 then ['\''] else []) ++ (singleQuoted cs).2.1 =
      cs := by
  fun_induction singleQuoted cs with
  | case1 | case2 | case3 | case4 =>
      rfl
  | case5 c r hc q ih =>
      exact congrArg ('\\' :: c :: ·) ih
  | case6 c r _ _ _ q ih =>
      exact congrArg (c :: ·) ih

/-- A closed string ends at its closing quote, whatever stands behind it. -/
theorem singleQuoted_closed
    {cs : List Char} (h : (singleQuoted cs).2.2 = true) (x : List Char) :
    singleQuoted ((singleQuoted cs).1 ++ '\'' :: x) = ((singleQuoted cs).1, x, true) := by
  fun_induction singleQuoted cs with
  | case1 | case3 | case4 =>
      cases h
  | case2 =>
      rfl
  | case5 c r hc q ih =>
      show singleQuoted ('\\' :: c :: (q.1 ++ '\'' :: x)) = ('\\' :: c :: q.1, x, true)
      rw [singleQuoted, if_neg hc, ih h]
  | case6 c r hquote hlone hslash q ih =>
      show singleQuoted (c :: (q.1 ++ '\'' :: x)) = (c :: q.1, x, true)
      have hescape : c ≠ '\\' := ne_backslash hlone hslash
      rw [singleQuoted, ih h]
      · exact hquote
      · exact fun hc => absurd hc hescape
      · exact fun _ _ hc => absurd hc hescape

/-! ### Marks -/

theorem takeExactly?_eq_some_iff
    {ps cs rest : List Char} :
    takeExactly? ps cs = some rest ↔ cs = ps ++ rest := by
  induction ps generalizing cs with
  | nil =>
      simp [takeExactly?, eq_comm]
  | cons p ps ih =>
      cases cs with
      | nil =>
          simp [takeExactly?]
      | cons c cs =>
          by_cases heq : p = c
          · simp [takeExactly?, heq, ih]
          · simp [takeExactly?, heq, Ne.symm heq]

theorem Mark.text_ne_nil
    (m : Mark) :
    m.text.toList ≠ [] := by
  cases m with
  | _ => decide

theorem exists_mark
    {l : Lexeme} (h : markLexeme? cs = some l) :
    ∃ m rest, l = ⟨m.text.toList, rest, .ok (.mark m)⟩ := by
  obtain ⟨m, -, hm⟩ := List.exists_of_findSome?_eq_some h
  obtain ⟨rest, -, rfl⟩ := Option.map_eq_some_iff.mp hm
  exact ⟨m, rest, rfl⟩

/-- The longest mark takes the front of a text, and is the same on its own. -/
theorem markLexeme?_front
    {l : Lexeme} (h : markLexeme? cs = some l) :
    l.taken ++ l.rest = cs ∧ l.taken ≠ [] ∧ markLexeme? l.taken = some l.alone := by
  obtain ⟨before, m, after, hmarks, hm, hbefore⟩ := List.findSome?_eq_some_iff.mp h
  obtain ⟨rest, hrest, rfl⟩ := Option.map_eq_some_iff.mp hm
  have hcs := takeExactly?_eq_some_iff.mp hrest
  refine ⟨hcs.symm, ?_, List.findSome?_eq_some_iff.mpr ⟨before, m, after, hmarks, ?_, ?_⟩⟩
  · exact m.text_ne_nil
  · have halone := takeExactly?_eq_some_iff.mpr (List.append_nil m.text.toList).symm
    exact Option.map_eq_some_iff.mpr ⟨[], halone, rfl⟩
  · intro m' hm'
    refine Option.map_eq_none_iff.mpr (Option.eq_none_iff_forall_ne_some.mpr fun z hz => ?_)
    have hfront := takeExactly?_eq_some_iff.mp hz
    have hlonger : takeExactly? m'.text.toList cs = some (z ++ rest) := by
      refine takeExactly?_eq_some_iff.mpr (hcs.trans ?_)
      rw [← List.append_assoc, ← hfront]
    have hnone := Option.map_eq_none_iff.mp (hbefore m' hm')
    cases hnone.symm.trans hlonger

/-! ### Lexemes -/

/-- The token of a word. -/
def wordToken (word : List Char) : Token :=
  match Keyword.ofText? (String.ofList word) with
  | some k => .keyword k
  | none => .identifier (String.ofList word)

variable {c : Char} {r : List Char}

theorem lexeme_of_name
    (hname : isNameStart c = true) :
    lexeme (c :: r) =
      ⟨(c :: r).takeWhile isNamePart, (c :: r).dropWhile isNamePart,
        .ok (wordToken ((c :: r).takeWhile isNamePart))⟩ :=
  if_pos hname

theorem lexeme_of_digit
    (hname : isNameStart c = false) (hdigit : c.isDigit = true) :
    lexeme (c :: r) = numberLexeme (c :: r) := by
  unfold lexeme
  dsimp only
  rw [if_neg (by simp [hname]), if_pos hdigit]

theorem lexeme_of_quote
    (hclosed : (singleQuoted r).2.2 = true) :
    lexeme ('\'' :: r) =
      ⟨'\'' :: (singleQuoted r).1 ++ ['\''], (singleQuoted r).2.1,
        .ok (.string (String.ofList (unescape (singleQuoted r).1)))⟩ :=
  if_pos hclosed

theorem lexeme_of_mark
    {l : Lexeme} (hname : isNameStart c = false) (hdigit : c.isDigit = false) (hquote : c ≠ '\'')
    (hmark : markLexeme? (c :: r) = some l) :
    lexeme (c :: r) = l := by
  unfold lexeme
  dsimp only
  rw [if_neg (by simp [hname]), if_neg (by simp [hdigit]), if_neg hquote, hmark]

/-- What a lexeme may be. -/
inductive IsLexeme : List Char → Lexeme → Prop
  | word {c : Char} {r : List Char} (hname : isNameStart c = true) :
      IsLexeme (c :: r)
        ⟨(c :: r).takeWhile isNamePart, (c :: r).dropWhile isNamePart,
          .ok (wordToken ((c :: r).takeWhile isNamePart))⟩
  | number {c : Char} {r : List Char} (hname : isNameStart c = false) (hdigit : c.isDigit = true) :
      IsLexeme (c :: r) (numberLexeme (c :: r))
  | quoted {r : List Char} (hclosed : (singleQuoted r).2.2 = true) :
      IsLexeme ('\'' :: r)
        ⟨'\'' :: (singleQuoted r).1 ++ ['\''], (singleQuoted r).2.1,
          .ok (.string (String.ofList (unescape (singleQuoted r).1)))⟩
  | unclosed {r : List Char} (hclosed : (singleQuoted r).2.2 = false) :
      IsLexeme ('\'' :: r)
        ⟨'\'' :: (singleQuoted r).1, (singleQuoted r).2.1, .error (.unexpectedCharacter '\'')⟩
  | mark {c : Char} {r : List Char} {l : Lexeme} (hname : isNameStart c = false)
      (hdigit : c.isDigit = false) (hquote : c ≠ '\'') (hmark : markLexeme? (c :: r) = some l) :
      IsLexeme (c :: r) l
  | unexpected {c : Char} {r : List Char} :
      IsLexeme (c :: r) ⟨[c], r, .error (.unexpectedCharacter c)⟩

theorem isLexeme_lexeme
    (c : Char) (r : List Char) :
    IsLexeme (c :: r) (lexeme (c :: r)) := by
  unfold lexeme
  dsimp only
  split
  · next hname =>
      exact .word hname
  split
  · next hname hdigit =>
      exact .number (by simpa using hname) hdigit
  split
  · next hname hdigit hquote =>
      subst hquote
      split
      · next hclosed =>
          exact .quoted hclosed
      · next hopen =>
          exact .unclosed (by simpa using hopen)
  split
  · next hname hdigit hquote _ l hmark =>
      exact .mark (by simpa using hname) (by simpa using hdigit) hquote hmark
  · exact .unexpected

theorem numberLexeme_taken_ne_nil
    (hdigit : c.isDigit = true) :
    (numberLexeme (c :: r)).taken ≠ [] := by
  have hdecimal : (decimalLexeme (c :: r)).taken ≠ [] := by
    have hdigits : (digitGroups Char.isDigit (c :: r)).1 ≠ [] := by
      rw [digitGroups, if_pos hdigit]
      exact List.cons_ne_nil _ _
    unfold decimalLexeme
    dsimp only
    split
    · exact List.append_ne_nil_of_left_ne_nil hdigits _
    · rw [pointedLexeme_taken, List.append_assoc]
      exact List.append_ne_nil_of_left_ne_nil hdigits _
  rw [numberLexeme_eq]
  split
  · split
    · exact hdecimal
    · exact List.cons_ne_nil _ _
  · split
    · exact hdecimal
    · exact List.cons_ne_nil _ _
  · exact hdecimal

theorem exists_int
    {taken : List Char} {value : Nat} {t : Token} (h : intToken taken value = .ok t) :
    ∃ n, t = .int n := by
  unfold intToken at h
  split at h
  · cases h
    exact ⟨_, rfl⟩
  · cases h

/-- A number is an integer or a float. -/
theorem exists_number
    {t : Token} (h : (numberLexeme cs).token = .ok t) :
    (∃ n, t = .int n) ∨ ∃ v, t = .float v := by
  have hdecimal (h : (decimalLexeme cs).token = .ok t) : (∃ n, t = .int n) ∨ ∃ v, t = .float v := by
    unfold decimalLexeme pointedLexeme at h
    dsimp only at h
    split at h
    · exact .inl (exists_int h)
    · split at h
      · exact .inl (exists_int h)
      · cases h
        exact .inr ⟨_, rfl⟩
  rw [numberLexeme_eq] at h
  split at h
  · split at h
    · exact hdecimal h
    · exact .inl (exists_int h)
  · split at h
    · exact hdecimal h
    · exact .inl (exists_int h)
  · exact hdecimal h

theorem isNamePart_of_isNameStart
    (hname : isNameStart c = true) :
    isNamePart c = true := by
  rcases Bool.or_eq_true_iff.mp hname with halpha | hunder
  · simp [isNamePart, Char.isAlphanum, halpha]
  · simp [isNamePart, hunder]

namespace IsLexeme

variable {l : Lexeme}

theorem append
    (h : IsLexeme cs l) :
    l.taken ++ l.rest = cs := by
  cases h with
  | word hname =>
      exact List.takeWhile_append_dropWhile
  | number hname hdigit =>
      exact (numberLexeme_front _).1
  | @quoted r hclosed =>
      have happend := singleQuoted_append r
      rw [if_pos hclosed] at happend
      exact congrArg ('\'' :: ·) happend
  | @unclosed r hopen =>
      have happend := singleQuoted_append r
      rw [hopen, if_neg (by simp), List.append_nil] at happend
      exact congrArg ('\'' :: ·) happend
  | mark _ _ _ hmark =>
      exact (markLexeme?_front hmark).1
  | unexpected =>
      rfl

theorem taken_ne_nil
    (h : IsLexeme cs l) :
    l.taken ≠ [] := by
  cases h with
  | word hname =>
      simp [isNamePart_of_isNameStart hname]
  | number _ hdigit =>
      exact numberLexeme_taken_ne_nil hdigit
  | quoted | unclosed | unexpected =>
      exact List.cons_ne_nil _ _
  | mark _ _ _ hmark =>
      exact (markLexeme?_front hmark).2.1

/-- What a lexeme takes begins as the text does. -/
theorem taken_eq_cons
    (h : IsLexeme (c :: r) l) :
    ∃ z, l.taken = c :: z := by
  have happend := h.append
  cases htaken : l.taken with
  | nil =>
      exact absurd htaken h.taken_ne_nil
  | cons d z =>
      rw [htaken] at happend
      cases happend
      exact ⟨z, rfl⟩

/-- A token that is read on its own is the same token. -/
theorem alone
    {t : Token} (h : IsLexeme cs l) (ht : l.token = .ok t) :
    lexeme l.taken = l.alone := by
  cases h with
  | @word c r hname =>
      obtain ⟨z, hz⟩ := (IsLexeme.word (r := r) hname).taken_eq_cons
      have halone := (scans_takeWhile isNamePart).alone (c :: r)
      obtain ⟨htake, hdrop⟩ := Prod.mk.inj halone
      dsimp only at hz ⊢
      rw [hz] at htake hdrop ⊢
      rw [lexeme_of_name hname, htake, hdrop]
      rfl
  | @number c r hname hdigit =>
      obtain ⟨z, hz⟩ := (IsLexeme.number (r := r) hname hdigit).taken_eq_cons
      rw [← (numberLexeme_front (c :: r)).2, hz]
      exact lexeme_of_digit hname hdigit
  | @quoted r hclosed =>
      have halone := singleQuoted_closed hclosed []
      have hlexeme := lexeme_of_quote (r := (singleQuoted r).1 ++ ['\'']) (by rw [halone])
      rw [halone] at hlexeme
      exact hlexeme
  | @mark c r l hname hdigit hquote hmark =>
      obtain ⟨z, hz⟩ := (IsLexeme.mark hname hdigit hquote hmark).taken_eq_cons
      obtain ⟨-, -, halone⟩ := markLexeme?_front hmark
      rw [hz] at halone ⊢
      exact lexeme_of_mark hname hdigit hquote halone
  | unclosed | unexpected =>
      cases ht

/-- No lexeme is the end of the text. -/
theorem ne_eof
    {t : Token} (h : IsLexeme cs l) (ht : l.token = .ok t) :
    t ≠ .eof := by
  cases h with
  | word hname =>
      cases ht
      unfold wordToken
      split
      · simp
      · simp
  | number hname hdigit =>
      rcases exists_number ht with ⟨n, rfl⟩ | ⟨v, rfl⟩
      · simp
      · simp
  | quoted hclosed =>
      cases ht
      simp
  | mark _ _ _ hmark =>
      obtain ⟨m, rest, rfl⟩ := exists_mark hmark
      cases ht
      simp
  | unclosed | unexpected =>
      cases ht

/-- No lexeme is a string with embedded expressions. -/
theorem ne_template
    {t : Token} {parts : List TemplatePart} (h : IsLexeme cs l) (ht : l.token = .ok t) :
    t ≠ .template parts := by
  cases h with
  | word hname =>
      cases ht
      unfold wordToken
      split
      · simp
      · simp
  | number hname hdigit =>
      rcases exists_number ht with ⟨n, rfl⟩ | ⟨v, rfl⟩
      · simp
      · simp
  | quoted hclosed =>
      cases ht
      simp
  | mark _ _ _ hmark =>
      obtain ⟨m, rest, rfl⟩ := exists_mark hmark
      cases ht
      simp
  | unclosed | unexpected =>
      cases ht

end IsLexeme

end ScriptEngine
