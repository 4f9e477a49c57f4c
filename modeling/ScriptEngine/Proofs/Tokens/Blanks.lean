import Mathlib.Data.List.Infix
import ScriptEngine.Token.Lexeme

/-!
# Blanks and comments

Between tokens there are blanks and comments, and `blankText` takes all of them: what it takes is a
sequence of them (`blankText_takes`), and what it leaves does not begin with another one
(`blankText_rest`).  A line end closes them, unless a block comment is open
(`Blanks.closed_or_open`).
-/

namespace ScriptEngine

/-- Blank characters, line comments with their line ends, and closed block comments; at the end of a
text the last comment may be open. -/
inductive Blanks (atEnd : Bool) : List Char → Prop
  | nil : Blanks atEnd []
  | space {c : Char} {r : List Char} (hc : c ∈ [' ', '\t', '\r', '\n']) (hrest : Blanks atEnd r) :
      Blanks atEnd (c :: r)
  | line {body r : List Char} (hbody : '\n' ∉ body) (hrest : Blanks atEnd r) :
      Blanks atEnd ('/' :: '/' :: body ++ '\n' :: r)
  | block {body r : List Char} (hbody : ¬ ['*', '/'] <:+: body) (hrest : Blanks atEnd r) :
      Blanks atEnd ('/' :: '*' :: body ++ '*' :: '/' :: r)
  | lastLine {body : List Char} (hend : atEnd = true) (hbody : '\n' ∉ body) :
      Blanks atEnd ('/' :: '/' :: body)
  | lastBlock {body : List Char} (hend : atEnd = true) (hbody : ¬ ['*', '/'] <:+: body) :
      Blanks atEnd ('/' :: '*' :: body)

/-- What a scan of blanks takes from where it stands. -/
def BlankMode.Takes (atEnd : Bool) : BlankMode → List Char → Prop
  | code, taken => Blanks atEnd taken
  | lineComment, taken =>
    (∃ body r, '\n' ∉ body ∧ Blanks atEnd r ∧ taken = body ++ '\n' :: r) ∨
      atEnd = true ∧ '\n' ∉ taken
  | blockComment, taken =>
    (∃ body r, ¬ ['*', '/'] <:+: body ∧ Blanks atEnd r ∧ taken = body ++ '*' :: '/' :: r) ∨
      atEnd = true ∧ ¬ ['*', '/'] <:+: taken

theorem blankText_append
    (m : BlankMode) (cs : List Char) :
    (blankText m cs).1 ++ (blankText m cs).2 = cs := by
  fun_induction blankText m cs with
  | case1 | case5 =>
      rfl
  | case2 r p ih | case3 r p ih | case7 r p ih =>
      exact congrArg (_ :: _ :: ·) ih
  | case4 c r _ _ _ p ih | case6 c r p ih | case8 c r _ p ih =>
      exact congrArg (c :: ·) ih

/-- A block comment does not end before it is closed. -/
theorem not_infix_cons
    {c : Char} {body : List Char} (hbody : ¬ ['*', '/'] <:+: body)
    (hfront : ∀ r, c = '*' → body ≠ '/' :: r) :
    ¬ ['*', '/'] <:+: c :: body := by
  intro hinfix
  rcases List.infix_cons_iff.mp hinfix with hprefix | hinfix
  · obtain ⟨r, hr⟩ := hprefix
    cases hr
    exact hfront r rfl rfl
  · exact hbody hinfix

/-- A scan takes blanks and comments, and an open comment at the end of the text only. -/
theorem blankText_takes
    (m : BlankMode) (cs : List Char) :
    m.Takes (blankText m cs).2.isEmpty (blankText m cs).1 := by
  fun_induction blankText m cs with
  | case1 m =>
      cases m with
      | code =>
          exact .nil
      | lineComment | blockComment =>
          exact .inr ⟨rfl, by simp⟩
  | case2 r p ih =>
      rcases ih with ⟨body, rest, hbody, hrest, heq⟩ | ⟨hend, hbody⟩
      · exact heq ▸ .line hbody hrest
      · exact .lastLine hend hbody
  | case3 r p ih =>
      rcases ih with ⟨body, rest, hbody, hrest, heq⟩ | ⟨hend, hbody⟩
      · exact heq ▸ .block hbody hrest
      · exact .lastBlock hend hbody
  | case4 c r hline hblock hc p ih =>
      exact .space (by simpa using hc) ih
  | case5 =>
      exact .nil
  | case6 c r p ih =>
      by_cases hc : c = '\n'
      · subst hc
        exact .inl ⟨[], _, by simp, ih, rfl⟩
      · have hp : p = blankText .lineComment r := congrArg (blankText · r) (if_neg hc)
        rw [if_neg hc] at ih
        rw [hp]
        rcases ih with ⟨body, rest, hbody, hrest, heq⟩ | ⟨hend, hbody⟩
        · exact .inl ⟨c :: body, rest, by simp [hbody, Ne.symm hc], hrest, congrArg (c :: ·) heq⟩
        · exact .inr ⟨hend, by simp [hbody, Ne.symm hc]⟩
  | case7 r p ih =>
      exact .inl ⟨[], _, by simp, ih, rfl⟩
  | case8 c r hclose p ih =>
      have happend := blankText_append .blockComment r
      have hfront {body rest : List Char} (heq : body ++ rest = r) (r' : List Char) (hc : c = '*') :
          body ≠ '/' :: r' := fun hbody => hclose (r' ++ rest) hc (by rw [← heq, hbody]; rfl)
      rcases ih with ⟨body, rest, hbody, hrest, heq⟩ | ⟨hend, hbody⟩
      · rw [heq, List.append_assoc] at happend
        exact .inl ⟨c :: body, rest, not_infix_cons hbody (hfront happend), hrest,
          congrArg (c :: ·) heq⟩
      · exact .inr ⟨hend, not_infix_cons hbody (hfront happend)⟩

/-- What is left after the blanks begins with no other blank. -/
theorem blankText_rest
    (m : BlankMode) (cs : List Char) :
    blankText .code (blankText m cs).2 = ([], (blankText m cs).2) := by
  fun_induction blankText m cs with
  | case1 =>
      rfl
  | case2 r p ih | case3 r p ih | case4 c r _ _ _ p ih | case6 c r p ih | case7 r p ih
  | case8 c r _ p ih =>
      exact ih
  | case5 c r hline hblock hc =>
      rw [blankText, if_neg hc]
      · exact hline
      · exact hblock

/-- The front of a text that begins with no blank begins with none either. -/
theorem blankText_of_front
    {text rest : List Char} (h : blankText .code (text ++ rest) = ([], text ++ rest)) :
    blankText .code text = ([], text) := by
  generalize hmode : BlankMode.code = m at h ⊢
  fun_cases blankText m text with
  | case1 =>
      rfl
  | case2 r | case3 r =>
      cases congrArg Prod.fst h
  | case4 c r hline hblock hc =>
      have hslash : c ≠ '/' := by
        rintro rfl
        simp at hc
      rw [List.cons_append, blankText, if_pos hc] at h
      · cases congrArg Prod.fst h
      · exact fun _ heq => absurd heq hslash
      · exact fun _ heq => absurd heq hslash
  | case5 =>
      rfl
  | case6 | case7 | case8 =>
      cases hmode

theorem blankText_line
    {body : List Char} (hbody : '\n' ∉ body) (cs : List Char) :
    blankText .lineComment (body ++ '\n' :: cs) =
      (body ++ '\n' :: (blankText .code cs).1, (blankText .code cs).2) := by
  induction body with
  | nil =>
      rfl
  | cons c body ih =>
      have hc : c ≠ '\n' := fun hc => hbody (hc ▸ List.mem_cons_self)
      rw [List.cons_append, blankText, if_neg hc, ih fun h => hbody (List.mem_cons_of_mem _ h)]
      rfl

theorem blankText_block
    {body : List Char} (hbody : ¬ ['*', '/'] <:+: body) (cs : List Char) :
    blankText .blockComment (body ++ '*' :: '/' :: cs) =
      (body ++ '*' :: '/' :: (blankText .code cs).1, (blankText .code cs).2) := by
  induction body with
  | nil =>
      rfl
  | cons c body ih =>
      rw [List.cons_append, blankText, ih fun h => hbody (List.infix_cons h)]
      · rfl
      · rintro r rfl hr
        obtain _ | ⟨d, body⟩ := body
        · cases hr
        · cases hr
          exact hbody (List.IsPrefix.isInfix ⟨body, rfl⟩)

/-- Closed comments and blanks are taken, and the scan goes on behind them. -/
theorem Blanks.blankText_append
    {b : List Char} (h : Blanks false b) (cs : List Char) :
    blankText .code (b ++ cs) = (b ++ (blankText .code cs).1, (blankText .code cs).2) := by
  generalize hend : false = atEnd at h
  induction h with
  | nil =>
      rfl
  | @space c r hc _ ih =>
      have hblank : c = ' ' ∨ c = '\t' ∨ c = '\r' ∨ c = '\n' := by simpa using hc
      have hslash : c ≠ '/' := by
        rintro rfl
        simp at hblank
      rw [List.cons_append, blankText, if_pos hblank, ih]
      · rfl
      · exact fun _ heq => absurd heq hslash
      · exact fun _ heq => absurd heq hslash
  | @line body r hbody _ ih =>
      have htext : ('/' :: '/' :: body ++ '\n' :: r) ++ cs =
          '/' :: '/' :: (body ++ '\n' :: (r ++ cs)) := by
        simp
      rw [htext, blankText, blankText_line hbody, ih]
      simp
  | @block body r hbody _ ih =>
      have htext : ('/' :: '*' :: body ++ '*' :: '/' :: r) ++ cs =
          '/' :: '*' :: (body ++ '*' :: '/' :: (r ++ cs)) := by
        simp
      rw [htext, blankText, blankText_block hbody, ih]
      simp
  | lastLine h' _ | lastBlock h' _ =>
      rw [← hend] at h'
      cases h'

/-- What begins with no blank begins with none when a line follows. -/
theorem blankText_before
    {cs : List Char} (h : blankText .code cs = ([], cs)) (hne : cs ≠ []) (x : List Char) :
    blankText .code (cs ++ '\n' :: x) = ([], cs ++ '\n' :: x) := by
  generalize hmode : BlankMode.code = m at h ⊢
  fun_cases blankText m cs with
  | case1 =>
      exact absurd rfl hne
  | case2 r p | case3 r p =>
      rw [blankText] at h
      cases congrArg Prod.fst h
  | case4 c r hline hblock hc p =>
      rw [blankText, if_pos hc] at h
      · cases congrArg Prod.fst h
      · exact hline
      · exact hblock
  | case5 c r hline hblock hc =>
      rw [List.cons_append, blankText, if_neg hc]
      · intro r' hslash hr
        cases r with
        | nil =>
            cases hr
        | cons d r =>
            cases hr
            exact hline r hslash rfl
      · intro r' hslash hr
        cases r with
        | nil =>
            cases hr
        | cons d r =>
            cases hr
            exact hblock r hslash rfl
  | case6 | case7 | case8 =>
      cases hmode

/-- A line end closes the blanks at the end of a text, if no block comment is open. -/
theorem Blanks.closed_or_open
    {b : List Char} (h : Blanks true b) :
    Blanks false (b ++ ['\n']) ∨
      ∃ front body, b = front ++ '/' :: '*' :: body ∧ Blanks false front ∧
        ¬ ['*', '/'] <:+: body := by
  have hnewline : Blanks false ['\n'] := .space (by simp) .nil
  generalize true = e at h
  induction h with
  | nil =>
      exact .inl hnewline
  | @space c r hc _ ih =>
      obtain hclosed | ⟨front, body, rfl, hfront, hbody⟩ := ih
      · exact .inl (.space hc hclosed)
      · exact .inr ⟨c :: front, body, rfl, .space hc hfront, hbody⟩
  | @line text r htext _ ih =>
      obtain hclosed | ⟨front, body, rfl, hfront, hbody⟩ := ih
      · exact .inl (by simpa using Blanks.line htext hclosed)
      · exact .inr ⟨'/' :: '/' :: text ++ '\n' :: front, body, by simp, .line htext hfront, hbody⟩
  | @block text r htext _ ih =>
      obtain hclosed | ⟨front, body, rfl, hfront, hbody⟩ := ih
      · exact .inl (by simpa using Blanks.block htext hclosed)
      · exact .inr ⟨'/' :: '*' :: text ++ '*' :: '/' :: front, body, by simp, .block htext hfront,
          hbody⟩
  | @lastLine body _ hbody =>
      exact .inl (by simpa using Blanks.line hbody .nil)
  | @lastBlock body _ hbody =>
      exact .inr ⟨[], body, rfl, .nil, hbody⟩

end ScriptEngine
