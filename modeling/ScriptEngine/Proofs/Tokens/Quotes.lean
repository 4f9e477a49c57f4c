import Mathlib.Data.List.Flatten
import ScriptEngine.Proofs.Grammar.Composition
import ScriptEngine.Proofs.Tokens.Lexemes
import ScriptEngine.Token.Quoted
import ScriptEngine.Token.Stream

/-!
# Double-quoted strings

The scan of a hole knows how deep it is in braces and in which quotes it is.  `Skims` says where it
comes to behind a piece of text, whatever follows; such pieces are put together by `Skims.append`.
A hole is skimmed to outside of all braces and quotes (`skims_of_splitHole`), and what is so skimmed
is a hole if a closing brace follows (`Skims.splitHole_eq`).

The scan of a double-quoted string ends at the closing quote, whatever stands behind it
(`quotedParts_closed`).  What a string gives depends on its place only in the spans of embedded
tokens (`quotedValue_alike`).
-/

namespace ScriptEngine

/-! ### The scan of a hole -/

section Holes

variable {depth depth' depth'' : Nat} {quote quote' quote'' : Option Char} {c q : Char}
variable {cs ds rest hole : List Char}

/-- The characters that count in the scan of a hole. -/
def holeMarks : List Char := ['"', '\'', '{', '}']

/-- Behind a piece of text the scan of a hole is in other braces and quotes, and goes on. -/
def Skims (depth : Nat) (quote : Option Char) (cs : List Char) (depth' : Nat)
    (quote' : Option Char) : Prop :=
  ∀ r, splitHole depth quote (cs ++ r) =
    (splitHole depth' quote' r).map fun p => (cs ++ p.1, p.2)

namespace Skims

theorem nil :
    Skims depth quote [] depth quote := by
  intro r
  simp

theorem append
    (hcs : Skims depth quote cs depth' quote') (hds : Skims depth' quote' ds depth'' quote'') :
    Skims depth quote (cs ++ ds) depth'' quote'' := by
  intro r
  rw [List.append_assoc, hcs, hds, Option.map_map]
  simp [Function.comp_def]

/-- A character and what follows it. -/
theorem cons
    (hc : Skims depth quote [c] depth' quote') (hcs : Skims depth' quote' cs depth'' quote'') :
    Skims depth quote (c :: cs) depth'' quote'' :=
  hc.append hcs

/-- A backslash hides the character behind it from the scan. -/
theorem escape :
    Skims depth (some q) ['\\', c] depth (some q) :=
  fun _ => rfl

/-- Inside of quotes only the quote that opened them counts. -/
theorem quoted
    (hc : c ≠ '\\') :
    Skims depth (some q) [c] depth (if c = q then none else some q) := by
  intro r
  cases r with
  | nil | cons =>
      exact if_neg hc

theorem unquote
    (hq : q ≠ '\\') :
    Skims depth (some q) [q] depth none := by
  have h : Skims depth (some q) [q] depth (if q = q then none else some q) := quoted hq
  rwa [if_pos rfl] at h

theorem inside
    (hc : c ≠ '\\') (hq : c ≠ q) :
    Skims depth (some q) [c] depth (some q) := by
  have h : Skims depth (some q) [c] depth (if c = q then none else some q) := quoted hc
  rwa [if_neg hq] at h

theorem enquote
    (hc : c = '"' ∨ c = '\'') :
    Skims depth none [c] depth (some c) :=
  fun _ => if_pos hc

theorem openBrace :
    Skims depth none ['{'] (depth + 1) none :=
  fun _ => rfl

theorem closeBrace :
    Skims (depth + 1) none ['}'] depth none :=
  fun _ => rfl

/-- Other characters do not count outside of quotes. -/
theorem plain
    (hc : c ∉ holeMarks) :
    Skims depth none [c] depth none := by
  intro r
  simp only [holeMarks, List.mem_cons, List.not_mem_nil, or_false, not_or] at hc
  obtain ⟨hdouble, hsingle, hopen, hclose⟩ := hc
  refine (if_neg (by simp [hdouble, hsingle])).trans ?_
  rw [if_neg hopen, if_neg hclose]
  rfl

theorem plains
    (hcs : ∀ c ∈ cs, c ∉ holeMarks) :
    Skims depth none cs depth none := by
  induction cs with
  | nil =>
      exact .nil
  | cons c cs ih =>
      have hrest := ih fun d hd => hcs d (List.mem_cons_of_mem _ hd)
      exact (plain (hcs c List.mem_cons_self)).cons hrest

/-- A text that is skimmed to outside of all braces and quotes is the hole before a closing brace. -/
theorem splitHole_eq
    (h : Skims depth quote hole 0 none) (rest : List Char) :
    splitHole depth quote (hole ++ '}' :: rest) = some (hole, rest) := by
  rw [h]
  show some (hole ++ [], rest) = some (hole, rest)
  rw [List.append_nil]

end Skims

/-- A hole is skimmed to outside of all braces and quotes. -/
theorem skims_of_splitHole
    (h : splitHole depth quote cs = some (hole, rest)) :
    Skims depth quote hole 0 none := by
  fun_induction splitHole depth quote cs generalizing hole rest with
  | case1 | case2 =>
      cases h
  | case3 depth quote d r ih =>
      obtain ⟨⟨inner, rest'⟩, hsplit, heq⟩ := Option.map_eq_some_iff.mp h
      cases heq
      exact Skims.escape.append (ih hsplit)
  | case4 depth quote c r hescape quote' =>
      rename_i ih
      obtain ⟨⟨inner, rest'⟩, hsplit, heq⟩ := Option.map_eq_some_iff.mp h
      cases heq
      exact (Skims.quoted hescape).cons (ih hsplit)
  | case5 depth c r hquote ih =>
      obtain ⟨⟨inner, rest'⟩, hsplit, heq⟩ := Option.map_eq_some_iff.mp h
      cases heq
      exact (Skims.enquote hquote).cons (ih hsplit)
  | case6 depth r hquote ih =>
      obtain ⟨⟨inner, rest'⟩, hsplit, heq⟩ := Option.map_eq_some_iff.mp h
      cases heq
      exact Skims.openBrace.cons (ih hsplit)
  | case7 =>
      cases h
      exact .nil
  | case8 r depth hquote hbrace ih =>
      obtain ⟨⟨inner, rest'⟩, hsplit, heq⟩ := Option.map_eq_some_iff.mp h
      cases heq
      exact Skims.closeBrace.cons (ih hsplit)
  | case9 depth c r hquote hopen hclose ih =>
      obtain ⟨⟨inner, rest'⟩, hsplit, heq⟩ := Option.map_eq_some_iff.mp h
      cases heq
      have hplain : c ∉ holeMarks := by
        simp [holeMarks, not_or.mp hquote, hopen, hclose]
      exact (Skims.plain hplain).cons (ih hsplit)

end Holes

variable {cs rest : List Char} {ps : List RawPart} {inner inner' : List Char → TokenResult}

section Results

variable {ε α β : Type} {x : Except ε α} {b : β}

theorem map_eq_ok_iff
    {f : α → β} :
    x.map f = .ok b ↔ ∃ a, x = .ok a ∧ f a = b := by
  cases x with
  | ok | error =>
      simp [Except.map]

theorem bind_eq_ok_iff
    {f : α → Except ε β} :
    x.bind f = .ok b ↔ ∃ a, x = .ok a ∧ f a = .ok b := by
  cases x with
  | ok | error =>
      simp [Except.bind]

end Results

/-! ### The parts of a string -/

theorem flatMap_consRaw
    (raw : List Char) (ps : List RawPart) :
    (consRaw raw ps).flatMap RawPart.chars = raw ++ ps.flatMap RawPart.chars := by
  fun_cases consRaw raw ps with
  | case1 raw' ps | case2 ps hne =>
      simp [RawPart.chars]

theorem mem_consRaw
    {raw hole : List Char} :
    .hole hole ∈ consRaw raw ps ↔ .hole hole ∈ ps := by
  fun_cases consRaw raw ps with
  | case1 raw' ps | case2 ps hne =>
      simp

/-- The parts of a string are the front of what was scanned, up to the closing quote. -/
theorem quotedParts_append
    (cs : List Char) :
    ∃ tail, (quotedParts cs).1.flatMap RawPart.chars ++ tail = cs ∧
      ∀ rest, (quotedParts cs).2 = .closed rest → tail = '"' :: rest := by
  fun_induction quotedParts cs with
  | case1 =>
      exact ⟨[], rfl, fun rest h => by cases h⟩
  | case2 r =>
      exact ⟨'"' :: r, rfl, fun rest h => by cases h; rfl⟩
  | case3 c r p ih =>
      obtain ⟨tail, happend, hclosed⟩ := ih
      refine ⟨tail, ?_, hclosed⟩
      rw [flatMap_consRaw, List.append_assoc, happend]
      rfl
  | case4 r hnone =>
      exact ⟨'#' :: '{' :: r, rfl, fun rest h => by cases h⟩
  | case5 r hole rest hsplit p ih =>
      obtain ⟨tail, happend, hclosed⟩ := ih
      refine ⟨tail, ?_, hclosed⟩
      rw [List.flatMap_cons, List.append_assoc, happend, RawPart.chars, ← splitHole_append hsplit]
      simp
  | case6 c r _ _ _ p ih =>
      obtain ⟨tail, happend, hclosed⟩ := ih
      refine ⟨tail, ?_, hclosed⟩
      rw [flatMap_consRaw, List.append_assoc, happend]
      rfl

theorem append_of_closed
    (h : (quotedParts cs).2 = .closed rest) :
    (quotedParts cs).1.flatMap RawPart.chars ++ '"' :: rest = cs := by
  obtain ⟨tail, happend, hclosed⟩ := quotedParts_append cs
  rwa [hclosed rest h] at happend

/-- A hole is shorter than the text that it was found in. -/
theorem length_lt_of_hole
    {hole : List Char} (h : .hole hole ∈ (quotedParts cs).1) :
    hole.length < cs.length := by
  obtain ⟨tail, happend, -⟩ := quotedParts_append cs
  obtain ⟨before, after, hparts⟩ := List.append_of_mem h
  have hlength := congrArg List.length happend
  simp only [hparts, List.flatMap_append, List.flatMap_cons, RawPart.chars, List.length_append,
    List.length_cons] at hlength
  omega

theorem quotedParts_hole
    {hole : List Char} (h : splitHole 0 none cs = some (hole, rest)) :
    quotedParts ('#' :: '{' :: cs) =
      (.hole hole :: (quotedParts rest).1, (quotedParts rest).2) := by
  rw [quotedParts]
  split
  · next hnone =>
      cases h.symm.trans hnone
  · next hole' rest' hsome =>
      cases h.symm.trans hsome
      rfl

/-- A string ends at its closing quote, whatever stands behind it. -/
theorem quotedParts_closed
    (h : (quotedParts cs).2 = .closed rest) (x : List Char) :
    quotedParts ((quotedParts cs).1.flatMap RawPart.chars ++ '"' :: x) =
      ((quotedParts cs).1, .closed x) := by
  fun_induction quotedParts cs with
  | case1 | case4 =>
      cases h
  | case2 r =>
      simp [quotedParts]
  | case3 c r p ih =>
      rw [flatMap_consRaw]
      show quotedParts ('\\' :: c :: (p.1.flatMap RawPart.chars ++ '"' :: x)) = _
      rw [quotedParts, ih h]
  | case5 r hole rest' hsplit p ih =>
      have hhole := quotedParts_hole ((skims_of_splitHole hsplit).splitHole_eq
        (p.1.flatMap RawPart.chars ++ '"' :: x))
      rw [ih h] at hhole
      rw [← hhole, List.flatMap_cons, RawPart.chars]
      simp
  | case6 c r hquote hescape hhole p ih =>
      have happend := append_of_closed h
      have hlast : r ≠ [] := happend ▸ List.append_ne_nil_of_right_ne_nil _ (List.cons_ne_nil _ _)
      have hback : c ≠ '\\' := ne_backslash (fun _ => hlast) hescape
      rw [flatMap_consRaw]
      show quotedParts (c :: (p.1.flatMap RawPart.chars ++ '"' :: x)) = _
      rw [quotedParts, ih h]
      · exact hquote
      · exact fun _ _ hc => absurd hc hback
      -- what follows is the front of what was scanned, or the closing quote
      · intro z hc hz
        cases hflat : p.1.flatMap RawPart.chars with
        | nil =>
            rw [hflat] at hz
            cases hz
        | cons d y =>
            rw [hflat] at hz
            cases hz
            exact hhole (y ++ '"' :: rest) hc (by rw [← happend, hflat]; rfl)

/-- What a string takes is a string on its own. -/
theorem quotedParts_alone
    {text : List Char} (h : (quotedParts (text ++ rest)).2 = .closed rest) :
    quotedParts text = ((quotedParts (text ++ rest)).1, .closed []) := by
  have htext : (quotedParts (text ++ rest)).1.flatMap RawPart.chars ++ ['"'] = text := by
    have happend := append_of_closed h
    rw [List.append_cons] at happend
    exact List.append_cancel_right happend
  have hparts := quotedParts_closed h []
  rwa [htext] at hparts

/-! ### The token of a string -/

/-- The token that the parts of a string give. -/
def quotedValue (inner : List Char → TokenResult) (p : Place) :
    List RawPart → Except LexError Token
  | [] => .ok (.string "")
  | [.text raw] => .ok (.string (String.ofList (unescape raw)))
  | ps => (templateParts inner p.line (p.offset + 1) ps).map Token.template

theorem quotedValue_template
    {p : Place} (hempty : ps ≠ []) (hplain : ∀ raw, ps ≠ [.text raw]) :
    quotedValue inner p ps =
      (templateParts inner p.line (p.offset + 1) ps).map Token.template :=
  quotedValue.eq_3 inner p ps hempty hplain

theorem exists_string
    {p : Place} {token : Token} (h : quotedValue inner p ps = .ok token) :
    (∃ s, token = .string s) ∨ ∃ parts, token = .template parts := by
  fun_cases quotedValue inner p ps with
  | case1 | case2 =>
      cases h
      exact .inl ⟨_, rfl⟩
  | case3 _ hempty hplain =>
      rw [quotedValue_template hempty hplain] at h
      obtain ⟨parts, -, rfl⟩ := map_eq_ok_iff.mp h
      exact .inr ⟨parts, rfl⟩

theorem quotedToken_of_closed
    {p : Place} (h : (quotedParts cs).2 = .closed rest) :
    quotedToken inner p cs = (quotedValue inner p (quotedParts cs).1).map (·, rest) := by
  unfold quotedToken
  dsimp only
  rw [h]
  have htemplate (ps : List RawPart) :
      (do let parts ← templateParts inner p.line (p.offset + 1) ps
          return (Token.template parts, rest)) =
        ((templateParts inner p.line (p.offset + 1) ps).map Token.template).map (·, rest) := by
    cases templateParts inner p.line (p.offset + 1) ps with
    | ok | error =>
        rfl
  cases (quotedParts cs).1 with
  | nil =>
      rfl
  | cons part ps =>
      cases part with
      | hole =>
          exact htemplate _
      | text raw =>
          cases ps with
          | nil =>
              rfl
          | cons =>
              exact htemplate _

theorem quotedToken_of_open
    {p : Place} (h : ∀ rest, (quotedParts cs).2 ≠ .closed rest) :
    ∃ e, quotedToken inner p cs = .error e := by
  unfold quotedToken
  dsimp only
  cases hend : (quotedParts cs).2 with
  | closed rest =>
      exact absurd hend (h rest)
  | unterminatedString | unterminatedHole =>
      dsimp only
      cases templateParts inner p.line (p.offset + 1) (quotedParts cs).1 with
      | ok | error =>
          exact ⟨_, rfl⟩

theorem quotedToken_eq_ok_iff
    {p : Place} {token : Token} :
    quotedToken inner p cs = .ok (token, rest) ↔
      (quotedParts cs).2 = .closed rest ∧ quotedValue inner p (quotedParts cs).1 = .ok token := by
  cases hend : (quotedParts cs).2 with
  | closed rest' =>
      rw [quotedToken_of_closed hend]
      cases quotedValue inner p (quotedParts cs).1 with
      | ok token' =>
          simp [Except.map, and_comm]
      | error e =>
          simp [Except.map]
  | unterminatedString | unterminatedHole =>
      obtain ⟨e, he⟩ : ∃ e, quotedToken inner p cs = .error e :=
        quotedToken_of_open (by simp [hend])
      simp [he]

/-- Tokens that are moved to two places are the same, and break into lines in the same way. -/
theorem sameLayout_shift
    {line line' : Nat} (hline : 1 ≤ line) (hline' : 1 ≤ line') (offset offset' : Nat) :
    (ts : List LocatedToken) →
      SameLayout (ts.map fun t => (t.1, t.2.shift offset line))
        (ts.map fun t => (t.1, t.2.shift offset' line'))
  | [] => .nil
  | [(t, _)] => .single (Token.Alike.refl t)
  | (t, a) :: (u, b) :: ts => by
      refine .cons (Token.Alike.refl t) ?_
        (sameLayout_shift hline hline' offset offset' ((u, b) :: ts))
      simp only [Span.shift]
      omega

/-- The tokens of a hole. -/
def holeTokens (inner : List Char → TokenResult) (line offset : Nat) (cs : List Char) :
    Except LexError (List LocatedToken) :=
  match inner cs with
  | .ok ts => .ok (ts.map fun t => (t.1, t.2.shift (offset + 2) line))
  | .error (e :: _) => .error e
  | .error [] => .ok []

theorem templateParts_text
    (line offset : Nat) (raw : List Char) (ps : List RawPart) :
    templateParts inner line offset (.text raw :: ps) =
      (templateParts inner line (offset + byteLength raw) ps).map
        (.text (String.ofList (unescape raw)) :: ·) := by
  rw [templateParts]
  cases templateParts inner line (offset + byteLength raw) ps with
  | ok | error =>
      rfl

theorem templateParts_hole
    (line offset : Nat) (cs : List Char) (ps : List RawPart) :
    templateParts inner line offset (.hole cs :: ps) =
      (holeTokens inner line offset cs).bind fun ts =>
        (templateParts inner line (offset + byteLength cs + 3) ps).map (.hole ts :: ·) := by
  have hrest (ts : List LocatedToken) :
      (do let rest ← templateParts inner line (offset + byteLength cs + 3) ps
          return TemplatePart.hole ts :: rest) =
        (templateParts inner line (offset + byteLength cs + 3) ps).map (.hole ts :: ·) := by
    cases templateParts inner line (offset + byteLength cs + 3) ps with
    | ok | error =>
        rfl
  rw [templateParts, holeTokens]
  cases inner cs with
  | ok ts =>
      exact hrest _
  | error es =>
      cases es with
      | nil =>
          exact hrest _
      | cons e es =>
          rfl

theorem holeTokens_alike
    {line line' offset : Nat} (hline : 1 ≤ line) (hline' : 1 ≤ line')
    (hinner : inner cs = inner' cs) {ts : List LocatedToken}
    (h : holeTokens inner line offset cs = .ok ts) (offset' : Nat) :
    ∃ ts', holeTokens inner' line' offset' cs = .ok ts' ∧ SameLayout ts ts' := by
  unfold holeTokens at h ⊢
  rw [← hinner]
  cases hcs : inner cs with
  | ok us =>
      rw [hcs] at h
      cases h
      exact ⟨_, rfl, sameLayout_shift hline hline' _ _ us⟩
  | error es =>
      rw [hcs] at h
      cases es with
      | nil =>
          cases h
          exact ⟨_, rfl, .nil⟩
      | cons e es =>
          cases h

/-- The parts of a template depend on its place only in the spans of embedded tokens. -/
theorem templateParts_alike
    {line line' offset : Nat} {parts : List TemplatePart} (hline : 1 ≤ line) (hline' : 1 ≤ line')
    (hinner : ∀ hole, .hole hole ∈ ps → inner hole = inner' hole)
    (h : templateParts inner line offset ps = .ok parts) (offset' : Nat) :
    ∃ parts', templateParts inner' line' offset' ps = .ok parts' ∧
      TemplatePart.AllAlike parts parts' := by
  induction ps generalizing offset offset' parts with
  | nil =>
      cases h
      exact ⟨[], rfl, .nil⟩
  | cons part ps ih =>
      have hrest : ∀ hole, .hole hole ∈ ps → inner hole = inner' hole := fun hole hmem =>
        hinner hole (List.mem_cons_of_mem _ hmem)
      cases part with
      | text raw =>
          rw [templateParts_text] at h
          obtain ⟨parts, hps, rfl⟩ := map_eq_ok_iff.mp h
          obtain ⟨parts', hps', halike⟩ := ih hrest hps (offset' + byteLength raw)
          rw [templateParts_text, hps']
          exact ⟨_, rfl, .text _ halike⟩
      | hole cs =>
          rw [templateParts_hole] at h
          obtain ⟨ts, hcs, h⟩ := bind_eq_ok_iff.mp h
          obtain ⟨parts, hps, rfl⟩ := map_eq_ok_iff.mp h
          obtain ⟨ts', hcs', hlayout⟩ :=
            holeTokens_alike hline hline' (hinner cs List.mem_cons_self) hcs offset'
          obtain ⟨parts', hps', halike⟩ := ih hrest hps (offset' + byteLength cs + 3)
          refine ⟨.hole ts' :: parts', ?_, .hole hlayout halike⟩
          rw [templateParts_hole, hcs']
          exact map_eq_ok_iff.mpr ⟨parts', hps', rfl⟩

/-- A string gives the same token at another place. -/
theorem quotedValue_alike
    {p : Place} {token : Token} (hline : 1 ≤ p.line)
    (hinner : ∀ hole, .hole hole ∈ ps → inner hole = inner' hole)
    (h : quotedValue inner p ps = .ok token) {p' : Place} (hline' : 1 ≤ p'.line) :
    ∃ token', quotedValue inner' p' ps = .ok token' ∧ token.Alike token' := by
  fun_cases quotedValue inner p ps with
  | case1 | case2 =>
      cases h
      exact ⟨_, rfl, .refl _⟩
  | case3 _ hempty hplain =>
      rw [quotedValue_template hempty hplain] at h
      obtain ⟨parts, hparts, rfl⟩ := map_eq_ok_iff.mp h
      obtain ⟨parts', hparts', halike⟩ :=
        templateParts_alike hline hline' hinner hparts (p'.offset + 1)
      refine ⟨.template parts', ?_, .template halike⟩
      rw [quotedValue_template hempty hplain]
      exact map_eq_ok_iff.mpr ⟨parts', hparts', rfl⟩

theorem templateParts_congr
    (hinner : ∀ hole, .hole hole ∈ ps → inner hole = inner' hole) (line offset : Nat) :
    templateParts inner line offset ps = templateParts inner' line offset ps := by
  induction ps generalizing offset with
  | nil =>
      rfl
  | cons part ps ih =>
      have hrest : ∀ hole, .hole hole ∈ ps → inner hole = inner' hole := fun hole hmem =>
        hinner hole (List.mem_cons_of_mem _ hmem)
      cases part with
      | text raw =>
          rw [templateParts_text, templateParts_text, ih hrest]
      | hole cs =>
          rw [templateParts_hole, templateParts_hole, ih hrest, holeTokens, holeTokens,
            hinner cs List.mem_cons_self]

/-- What is read of a string depends on what is read of shorter texts. -/
theorem quotedToken_congr
    (hinner : ∀ hole, hole.length < cs.length → inner hole = inner' hole) (p : Place) :
    quotedToken inner p cs = quotedToken inner' p cs := by
  have hparts : templateParts inner p.line (p.offset + 1) (quotedParts cs).1 =
      templateParts inner' p.line (p.offset + 1) (quotedParts cs).1 :=
    templateParts_congr (fun hole hmem => hinner hole (length_lt_of_hole hmem)) _ _
  cases hend : (quotedParts cs).2 with
  | closed rest =>
      rw [quotedToken_of_closed hend, quotedToken_of_closed hend]
      congr 1
      generalize (quotedParts cs).1 = ps at hparts ⊢
      fun_cases quotedValue inner p ps with
      | case1 | case2 =>
          rfl
      | case3 _ hempty hplain =>
          rw [quotedValue_template hempty hplain, hparts]
  | unterminatedString | unterminatedHole =>
      unfold quotedToken
      dsimp only
      rw [hend]
      dsimp only
      rw [hparts]

end ScriptEngine
