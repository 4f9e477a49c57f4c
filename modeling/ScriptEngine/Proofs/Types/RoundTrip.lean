import ScriptEngine.Proofs.Tokens.Reading
import ScriptEngine.Proofs.Types.Acceptance

/-!
# Types survive being written

A type that was read is read again from its text, and is the same (`TypeExpr.read_text`).  For the
names in it are names, so its text is cut into the tokens of its spelling, and these are read back.
-/

namespace ScriptEngine

/-! ### Texts and their tokens -/

theorem blankText_blank
    {c : Char} (hc : c = ' ' ∨ c = '\t' ∨ c = '\r' ∨ c = '\n') (cs : List Char) :
    blankText .code (c :: cs) = (c :: (blankText .code cs).1, (blankText .code cs).2) := by
  have hslash : c ≠ '/' := by
    rintro rfl
    simp at hc
  rw [blankText, if_pos hc]
  · exact fun _ h => absurd h hslash
  · exact fun _ h => absurd h hslash

theorem blankText_other
    {c : Char} (hc : c ∉ [' ', '\t', '\r', '\n', '/']) (cs : List Char) :
    blankText .code (c :: cs) = ([], c :: cs) := by
  have hblank : ¬ (c = ' ' ∨ c = '\t' ∨ c = '\r' ∨ c = '\n') := by
    simp only [List.mem_cons, not_or] at hc ⊢
    tauto
  have hslash : c ≠ '/' := by
    rintro rfl
    simp at hc
  rw [blankText, if_neg hblank]
  · exact fun _ h => absurd h hslash
  · exact fun _ h => absurd h hslash

/-- A text is cut into some tokens, wherever it stands. -/
def Lexes (inner : List Char → TokenResult) (cs : List Char) (ts : List Token) : Prop :=
  ∀ p, ∃ us q, Tokenized inner p cs us q ∧ us.map (·.1) = ts

/-- A text that continues no mark in front of it. -/
def EndsMark (cs : List Char) : Prop := ∀ c r, cs = c :: r → c ≠ '=' ∧ c ≠ '|'

/-- A text that continues no word in front of it. -/
def EndsWord (cs : List Char) : Prop := ∀ c r, cs = c :: r → isNamePart c = false

/-- A text that continues neither a word nor a mark in front of it. -/
def Breaks (cs : List Char) : Prop := EndsWord cs ∧ EndsMark cs

theorem breaks_cons
    {c : Char} (hc : isNamePart c = false ∧ c ≠ '=' ∧ c ≠ '|') (cs : List Char) :
    Breaks (c :: cs) := by
  constructor
  · rintro c' r' ⟨⟩
    exact hc.1
  · rintro c' r' ⟨⟩
    exact hc.2

/-- The marks that types are written with. -/
def typeMarks : List (Char × Mark) :=
  [('<', .less), ('>', .greater), (',', .comma), ('|', .pipe), ('?', .question)]

namespace Lexes

variable {inner : List Char → TokenResult} {cs : List Char} {ts : List Token}

theorem nil :
    Lexes inner [] [] :=
  fun _ => ⟨[], _, .last rfl, rfl⟩

/-- A blank may stand before tokens. -/
theorem space
    (h : Lexes inner cs ts) :
    Lexes inner (' ' :: cs) ts := by
  intro p
  obtain ⟨us, q, hcs, hus⟩ := h (p.stepBlank ' ')
  have hspace := blankText_blank (.inl rfl) cs
  cases hcs with
  | last hblank =>
      rw [hblank] at hspace
      exact ⟨_, _, .last hspace, hus⟩
  | @token _ _ blank _ _ _ _ hblank htoken hrest =>
      rw [hblank] at hspace
      exact ⟨_, _, @Tokenized.token _ _ _ (' ' :: blank) _ _ _ _ hspace htoken hrest, hus⟩

theorem token
    {c : Char} {w : List Char} {t : Token} (hc : c ∉ [' ', '\t', '\r', '\n', '/', '"'])
    (hlexeme : lexeme (c :: w ++ cs) = ⟨c :: w, cs, .ok t⟩) (h : Lexes inner cs ts) :
    Lexes inner (c :: w ++ cs) (t :: ts) := by
  intro p
  obtain ⟨us, q, hcs, hus⟩ := h (p.advance (c :: w))
  simp only [List.mem_cons, not_or] at hc
  have hblank : blankText .code ([] ++ (c :: w ++ cs)) = ([], c :: w ++ cs) :=
    blankText_other (by simp [hc]) _
  have htoken : TokenAt inner p (c :: w) t cs := by
    refine .lexeme (List.cons_ne_nil _ _) ?_ hlexeme
    rintro r hr
    cases hr
    simp at hc
  exact ⟨_, _, .token hblank htoken hcs, by rw [List.map_cons, hus]⟩

theorem word
    {w : String} (hstart : ∃ c r, w.toList = c :: r ∧ isNameStart c = true)
    (hparts : ∀ c ∈ w.toList, isNamePart c = true) (hcs : EndsWord cs) (h : Lexes inner cs ts) :
    Lexes inner (w.toList ++ cs) (wordToken w.toList :: ts) := by
  obtain ⟨c, r, hw, hc⟩ := hstart
  have htake : (w.toList ++ cs).takeWhile isNamePart = w.toList := by
    rw [List.takeWhile_append_of_pos hparts]
    cases cs with
    | nil =>
        simp
    | cons d cs =>
        simp [hcs d cs rfl]
  have hdrop : (w.toList ++ cs).dropWhile isNamePart = cs := by
    have happend := List.takeWhile_append_dropWhile (p := isNamePart) (l := w.toList ++ cs)
    rw [htake] at happend
    exact List.append_cancel_left happend
  have hlexeme := lexeme_of_name (r := r ++ cs) hc
  rw [← List.cons_append, ← hw, htake, hdrop] at hlexeme
  have hother : c ∉ [' ', '\t', '\r', '\n', '/', '"'] := by
    intro hmem
    simp only [List.mem_cons, List.not_mem_nil, or_false] at hmem
    rcases hmem with rfl | rfl | rfl | rfl | rfl | rfl
    all_goals cases hc
  rw [hw] at hlexeme ⊢
  exact token hother hlexeme h

theorem name
    {n : String} (hn : IsName n) (hcs : EndsWord cs) (h : Lexes inner cs ts) :
    Lexes inner (n.toList ++ cs) (.identifier n :: ts) := by
  have htoken : wordToken n.toList = .identifier n := by
    rw [wordToken, String.ofList_toList, hn.free]
  exact htoken ▸ word hn.start hn.parts hcs h

theorem mark
    {c : Char} {m : Mark} (hm : (c, m) ∈ typeMarks) (hcs : EndsMark cs) (h : Lexes inner cs ts) :
    Lexes inner (c :: cs) (.mark m :: ts) := by
  simp only [typeMarks, List.mem_cons, Prod.mk.injEq, List.not_mem_nil, or_false] at hm
  have hmark : markLexeme? (c :: cs) = some ⟨[c], cs, .ok (.mark m)⟩ := by
    cases cs with
    | nil =>
        rcases hm with ⟨rfl, rfl⟩ | ⟨rfl, rfl⟩ | ⟨rfl, rfl⟩ | ⟨rfl, rfl⟩ | ⟨rfl, rfl⟩
        all_goals rfl
    | cons d r =>
        obtain ⟨hequal, hpipe⟩ := hcs d r rfl
        rcases hm with ⟨rfl, rfl⟩ | ⟨rfl, rfl⟩ | ⟨rfl, rfl⟩ | ⟨rfl, rfl⟩ | ⟨rfl, rfl⟩
        all_goals
          simp [markLexeme?, marksByLength, takeExactly?, Mark.text, Ne.symm hequal, Ne.symm hpipe]
  have hother : c ∉ [' ', '\t', '\r', '\n', '/', '"'] ∧ isNameStart c = false ∧
      c.isDigit = false ∧ c ≠ '\'' := by
    rcases hm with ⟨rfl, rfl⟩ | ⟨rfl, rfl⟩ | ⟨rfl, rfl⟩ | ⟨rfl, rfl⟩ | ⟨rfl, rfl⟩
    all_goals decide
  exact token (w := []) hother.1 (lexeme_of_mark hother.2.1 hother.2.2.1 hother.2.2.2 hmark) h

end Lexes

/-! ### Types and their tokens -/

namespace TypeExpr

variable {inner : List Char → TokenResult} {cs : List Char} {ts : List Token}
variable {d : Nat} {role : Role} {t : TypeExpr}

/-- No type begins as if it continued a mark. -/
theorem endsMark_text
    (ht : Readable d role t) (cs : List Char) :
    EndsMark (t.text.toList ++ cs) := by
  have hhead {c : Char} {r : List Char} {n : String} (hn : n.toList = c :: r)
      (hc : c ≠ '=' ∧ c ≠ '|') (cs : List Char) : EndsMark (n.toList ++ cs) := by
    rw [hn]
    rintro c' r' ⟨⟩
    exact hc
  induction ht generalizing cs with
  | @named d n args hname _ _ =>
      obtain ⟨c, r, hn, hc⟩ := hname.start
      have hmark : c ≠ '=' ∧ c ≠ '|' := by
        constructor
        all_goals
          rintro rfl
          cases hc
      cases args with
      | nil =>
          exact hhead hn hmark cs
      | cons a as =>
          simp only [text, String.toList_append, List.append_assoc]
          exact hhead hn hmark _
  | wildcard =>
      exact hhead rfl (by decide) cs
  | boundedAbove _ _ | boundedBelow _ _ =>
      simp only [text, String.toList_append, List.append_assoc]
      exact hhead rfl (by decide) _
  | single _ ih =>
      exact ih cs
  | @union d ms hseveral _ _ ih =>
      cases ms with
      | nil =>
          cases hseveral
      | cons m ms =>
          simp only [text, String.toList_append, List.append_assoc]
          exact ih m List.mem_cons_self _

/-- A text in front of others is cut into some tokens. -/
def LexesTo (inner : List Char → TokenResult) (text : List Char) (us : List Token) : Prop :=
  ∀ cs ts, Breaks cs → Lexes inner cs ts → Lexes inner (text ++ cs) (us ++ ts)

/-- What stands between types: a mark, with blanks around it. -/
structure Separates (inner : List Char → TokenResult) (separator : String) (m : Mark) : Prop where
  breaks : ∀ cs, Breaks (separator.toList ++ cs)
  lexes : ∀ cs ts, Lexes inner cs ts → Lexes inner (separator.toList ++ cs) (.mark m :: ts)

theorem separates_comma :
    Separates inner ", " .comma where
  breaks cs := breaks_cons (by decide) (' ' :: cs)
  lexes cs ts h := .mark (by decide) (breaks_cons (by decide) cs).2 h.space

theorem separates_pipe :
    Separates inner " | " .pipe where
  breaks cs := breaks_cons (by decide) ('|' :: ' ' :: cs)
  lexes cs ts h := by
    have hpipe : Lexes inner ('|' :: ' ' :: cs) (.mark .pipe :: ts) :=
      .mark (by decide) (breaks_cons (by decide) cs).2 h.space
    exact hpipe.space

theorem lexes_textTail
    {separator : String} {m : Mark} (hseparator : Separates inner separator m) {as : List TypeExpr}
    (has : ∀ a ∈ as, LexesTo inner a.text.toList (spelling a)) (hcs : Breaks cs)
    (h : Lexes inner cs ts) :
    Breaks ((textTail separator as).toList ++ cs) ∧
      Lexes inner ((textTail separator as).toList ++ cs) (spellingTail m as ++ ts) := by
  induction as with
  | nil =>
      exact ⟨hcs, h⟩
  | cons a as ih =>
      simp only [textTail, spellingTail, String.toList_append, List.append_assoc, List.cons_append]
      obtain ⟨hbreaks, hlexes⟩ := ih fun b hb => has b (List.mem_cons_of_mem _ hb)
      exact ⟨hseparator.breaks _,
        hseparator.lexes _ _ (has a List.mem_cons_self _ _ hbreaks hlexes)⟩

/-- The words in front of the bound of a wildcard. -/
theorem lexes_bound
    {w : String} {k : Keyword} (hstart : ∃ c r, w.toList = c :: r ∧ isNameStart c = true)
    (hparts : w.toList.all isNamePart = true) (hword : wordToken w.toList = .keyword k)
    (h : Lexes inner cs ts) :
    Lexes inner ("? ".toList ++ (w.toList ++ ' ' :: cs)) (.mark .question :: .keyword k :: ts) := by
  have hwords : Lexes inner (w.toList ++ ' ' :: cs) (.keyword k :: ts) :=
    hword ▸ .word hstart (List.all_eq_true.mp hparts) (breaks_cons (by decide) cs).1 h.space
  exact .mark (by decide) (breaks_cons (by decide) _).2 hwords.space

/-- The text of a type is cut into the tokens of its spelling. -/
theorem lexes_text
    (ht : Readable d role t) :
    LexesTo inner t.text.toList (spelling t) := by
  induction ht with
  | @named d n args hname hargs ih =>
      intro cs ts hcs h
      cases args with
      | nil =>
          exact .name hname hcs.1 h
      | cons a as =>
          simp only [text, spelling, String.toList_append, List.append_assoc, List.cons_append]
          have hgreater : Lexes inner ('>' :: cs) (.mark .greater :: ts) :=
            .mark (by decide) hcs.2 h
          obtain ⟨hbreaks, hlexes⟩ := lexes_textTail separates_comma
            (fun b hb => ih b (List.mem_cons_of_mem _ hb)) (breaks_cons (by decide) cs) hgreater
          refine .name hname (breaks_cons (by decide) _).1 (.mark (by decide) ?_ ?_)
          · exact endsMark_text (hargs a List.mem_cons_self) _
          · exact ih a List.mem_cons_self _ _ hbreaks hlexes
  | wildcard =>
      intro cs ts hcs h
      exact .mark (by decide) hcs.2 h
  | boundedAbove _ ih =>
      intro cs ts hcs h
      simp only [text, spelling, String.toList_append, List.append_assoc, List.cons_append]
      exact lexes_bound (w := "extends") ⟨'e', _, rfl, rfl⟩ rfl rfl (ih cs ts hcs h)
  | boundedBelow _ ih =>
      intro cs ts hcs h
      simp only [text, spelling, String.toList_append, List.append_assoc, List.cons_append]
      exact lexes_bound (w := "super") ⟨'s', _, rfl, rfl⟩ rfl rfl (ih cs ts hcs h)
  | single _ ih =>
      exact ih
  | @union d ms hseveral _ _ ih =>
      cases ms with
      | nil =>
          cases hseveral
      | cons m ms =>
          intro cs ts hcs h
          simp only [text, spelling, String.toList_append, List.append_assoc]
          obtain ⟨hbreaks, hlexes⟩ := lexes_textTail separates_pipe
            (fun b hb => ih b (List.mem_cons_of_mem _ hb)) hcs h
          exact ih m List.mem_cons_self _ _ hbreaks hlexes

end TypeExpr

/-! ### Tokens and their names -/

section Tokens

variable {inner : List Char → TokenResult} {p q : Place} {cs : List Char} {ts : List LocatedToken}

theorem isName_of_wordToken
    {c : Char} {r : List Char} {n : String} (hc : isNameStart c = true)
    (h : wordToken ((c :: r).takeWhile isNamePart) = .identifier n) :
    IsName n := by
  have htake : (c :: r).takeWhile isNamePart = c :: r.takeWhile isNamePart := by
    simp [isNamePart_of_isNameStart hc]
  rw [wordToken] at h
  split at h
  · cases h
  · next hfree =>
      cases h
      refine ⟨⟨c, _, by rw [String.toList_ofList, htake], hc⟩, ?_, hfree⟩
      rw [String.toList_ofList]
      exact fun d hd => List.mem_takeWhile_imp hd

theorem IsLexeme.isName
    {l : Lexeme} {n : String} (h : IsLexeme cs l) (ht : l.token = .ok (.identifier n)) :
    IsName n := by
  cases h with
  | word hname =>
      exact isName_of_wordToken hname (Except.ok.inj ht)
  | number _ _ =>
      rcases exists_number ht with ⟨_, heq⟩ | ⟨_, heq⟩
      all_goals cases heq
  | quoted _ | unclosed _ | unexpected =>
      cases ht
  | mark _ _ _ hmark =>
      obtain ⟨m, rest, rfl⟩ := exists_mark hmark
      cases ht

theorem quotedToken_ne_identifier
    {r rest : List Char} {n : String} :
    quotedToken inner p r ≠ .ok (.identifier n, rest) := by
  intro h
  obtain ⟨-, hvalue⟩ := quotedToken_eq_ok_iff.mp h
  rcases exists_string hvalue with ⟨_, heq⟩ | ⟨_, heq⟩
  all_goals cases heq

/-- The names among the tokens of a text are names. -/
theorem Tokenized.isName
    (h : Tokenized inner p cs ts q) {n : String} {sp : Span} (hn : (Token.identifier n, sp) ∈ ts) :
    IsName n := by
  induction h with
  | last _ =>
      cases hn
  | token hblank htoken _ ih =>
      rcases List.mem_cons.mp hn with heq | hn
      · cases heq
        cases htoken with
        | quoted h =>
            exact absurd h quotedToken_ne_identifier
        | lexeme hne _ h =>
            exact (isLexeme_of_lexeme hne h).isName rfl
      · exact ih hn

end Tokens

/-! ### Reading what was written -/

open Grammar

theorem Grammar.State.rest_ofTokens
    {us : List LocatedToken} {sp : Span} :
    (State.ofTokens (us ++ [(Token.eof, sp)])).rest = us ++ [(Token.eof, sp)] := by
  simp only [State.ofTokens, List.getLast?_concat]

/-- Reads a type that is all of a text. -/
def wholeType (ts : List LocatedToken) : Parse TypeExpr := do
  let t ← (readersFor ts).type
  unless ← atEof do failExpecting [.endOfText]
  return t

namespace TypeExpr

theorem read_eq_ok_iff
    {spec : String} {t : TypeExpr} :
    read spec = .ok t ↔
      ∃ ts s, tokenize spec = .ok ts ∧ wholeType ts (State.ofTokens ts) = .ok t s := by
  unfold read
  cases tokenize spec with
  | error es =>
      simp
  | ok ts =>
      cases hwhole : wholeType ts (State.ofTokens ts) with
      | ok t' s | error e s =>
          have hread := hwhole
          rw [wholeType] at hread
          simp only [hread]
          simp [hwhole]

variable {ts : List LocatedToken} {t : TypeExpr} {sp : Span}

/-- What is read of the tokens of a text is a type that can be read. -/
theorem readable_of_wholeType
    {us : List LocatedToken} {s : State}
    (hnames : ∀ n sp, (Token.identifier n, sp) ∈ us → IsName n)
    (h : wholeType (us ++ [(Token.eof, sp)]) (State.ofTokens (us ++ [(Token.eof, sp)])) = .ok t s) :
    Readable maxDepth .whole t := by
  have hsound : Sound 0 (State.ofTokens (us ++ [(Token.eof, sp)])) := by
    refine ⟨rfl, fun n sp' hn => hnames n sp' ?_⟩
    rw [State.rest_ofTokens] at hn
    simpa using hn
  have hgives : Gives (Sound 0) (wholeType (us ++ [(Token.eof, sp)]))
      fun t _ => Readable maxDepth .whole t := by
    refine .bind (readsTypes_readers _ 0) fun t => ?_
    refine .bind (R := fun _ _ => Readable maxDepth .whole t) ?_ fun b => ?_
    · exact .bind (.current fun s hs => hs.2.1) fun _ => .pure fun s hs => hs
    · cases b with
      | true =>
          exact .pure fun s hs => hs
      | false =>
          exact .fail
  exact hgives _ hsound _ _ h

/-- A type that can be read is read from the tokens of its spelling. -/
theorem exists_wholeType
    {us : List LocatedToken} (sp : Span) (ht : Readable maxDepth .whole t)
    (hus : us.map (·.1) = spelling t) :
    ∃ s, wholeType (us ++ [(Token.eof, sp)]) (State.ofTokens (us ++ [(Token.eof, sp)])) =
      .ok t s := by
  have hshows : State.Shows 0 (spelling t ++ Token.eof :: [])
      (State.ofTokens (us ++ [(Token.eof, sp)])) := by
    refine ⟨rfl, Nat.le_refl _, ?_⟩
    rw [State.rest_ofTokens, List.map_append, hus]
    rfl
  have hlength : (spelling t).length ≤ 4 * tokensWeight (us ++ [(Token.eof, sp)]) + 15 := by
    have := length_le_tokensWeight (us ++ [(Token.eof, sp)])
    rw [List.length_append] at this
    rw [← hus, List.length_map]
    omega
  have hread : Accepts 0 (readersFor (us ++ [(Token.eof, sp)])).type (spelling t) .eof t :=
    accepts_spelling ht (Nat.le_refl _) hlength .eof (.inl rfl)
  have hwhole : Accepts 0 (wholeType (us ++ [(Token.eof, sp)])) (spelling t) .eof t := by
    refine hread.last ?_
    have hlook : Accepts 0 atEof [] .eof true := Accepts.current.bind (u := []) .pure
    exact .look (u := []) hlook .pure
  obtain ⟨s, hs, -⟩ := hwhole _ _ hshows
  exact ⟨s, hs⟩

/-- A type that was read is read again from its text. -/
theorem read_text
    {spec : String} (h : read spec = .ok t) :
    read t.text = .ok t := by
  obtain ⟨ts, s, htokens, hwhole⟩ := read_eq_ok_iff.mp h
  obtain ⟨us, q, hus, rfl⟩ := tokenize_eq_ok_iff.mp htokens
  have ht := readable_of_wholeType (fun n sp hn => hus.isName hn) hwhole
  have hbreaks : Breaks [] := ⟨nofun, nofun⟩
  obtain ⟨us', q', hus', hspelling⟩ := lexes_text ht [] [] hbreaks .nil .origin
  rw [List.append_nil] at hus' hspelling
  obtain ⟨s', hread⟩ := exists_wholeType (Span.atPlace q') ht hspelling
  exact read_eq_ok_iff.mpr ⟨_, s', tokenize_eq_ok_iff.mpr ⟨us', q', hus', rfl⟩, hread⟩

/-- A bound that is a union, behind a member with wildcards of all kinds. -/
theorem read_text_wildcards :
    ∃ t, read "Map<?,List<? super A|nil>>|Box< >|? extends Int|B" = .ok t ∧
      t.text = "Map<?, List<? super A | Nil>> | Box | ? extends Int | B" ∧ read t.text = .ok t := by
  have hread : (read "Map<?,List<? super A|nil>>|Box< >|? extends Int|B").toOption.map text =
      some "Map<?, List<? super A | Nil>> | Box | ? extends Int | B" := by
    decide +kernel
  cases h : read "Map<?,List<? super A|nil>>|Box< >|? extends Int|B" with
  | error e =>
      rw [h] at hread
      cases hread
  | ok t =>
      rw [h] at hread
      exact ⟨t, rfl, Option.some.inj hread, read_text h⟩

end TypeExpr

end ScriptEngine
