import Mathlib.Data.List.Chain
import ScriptEngine.Grammar.Program
import ScriptEngine.Proofs.Grammar.Alongside

/-!
# The types that can be read

A bounded wildcard takes all that follows as its bound, a whole union too.  So the members of a
union that is read are no unions, and only the last of them may be a bounded wildcard.  The names in
a type come from the tokens that were read, and each level of it counts against the limit of
nesting.

`Readable` says this of a type in either place, and whatever is read is so (`readsTypes_readers`).
-/

namespace ScriptEngine

/-- A text that is read as a name. -/
structure IsName (n : String) : Prop where
  start : ∃ c r, n.toList = c :: r ∧ isNameStart c = true
  parts : ∀ c ∈ n.toList, isNamePart c = true
  free : Keyword.ofText? n = none

namespace TypeExpr

/-- Whether a type is a wildcard with a bound. -/
def isBounded : TypeExpr → Bool
  | boundedAbove _ | boundedBelow _ => true
  | _ => false

/-- Where a type stands: as a whole, or as a member of a union. -/
inductive Role
  | whole
  | member

/-- The types that can be read in a place, with some levels left to nest in. -/
inductive Readable : Nat → Role → TypeExpr → Prop
  | named {d : Nat} {n : String} {args : List TypeExpr} (hname : IsName n)
      (hargs : ∀ a ∈ args, Readable d .whole a) :
      Readable (d + 1) .member (named n args)
  | wildcard {d : Nat} :
      Readable (d + 1) .member wildcard
  | boundedAbove {d : Nat} {b : TypeExpr} (hbound : Readable d .whole b) :
      Readable (d + 1) .member (boundedAbove b)
  | boundedBelow {d : Nat} {b : TypeExpr} (hbound : Readable d .whole b) :
      Readable (d + 1) .member (boundedBelow b)
  | single {d : Nat} {t : TypeExpr} (hmember : Readable d .member t) :
      Readable d .whole t
  | union {d : Nat} {ms : List TypeExpr} (hseveral : 2 ≤ ms.length)
      (hmembers : ∀ m ∈ ms, Readable d .member m)
      (hbounded : ms.IsChain fun m _ => m.isBounded = false) :
      Readable d .whole (union ms)

end TypeExpr

namespace Grammar

/-! ### What a reader gives -/

/-- From states with a property a reader gives only what it should. -/
def Gives {α : Type} (P : State → Prop) (p : Parse α) (Q : α → State → Prop) : Prop :=
  ∀ s, P s → ∀ a s', p s = .ok a s' → Q a s'

/-- What is the case after a round: it goes on, or it was the last one. -/
def AfterRound {α β : Type} (R : α → State → Prop) (Q : β → State → Prop) :
    Round α β → State → Prop
  | .again a => R a
  | .done b => Q b

namespace Gives

variable {α β : Type} {P P' : State → Prop} {p : Parse α} {f : α → Parse β}
variable {R : α → State → Prop} {Q Q' : β → State → Prop}

theorem weaken
    {p : Parse β} (hp : Gives P p Q) (hQ : ∀ b s, Q b s → Q' b s) :
    Gives P p Q' := by
  intro s hs b s' hrun
  exact hQ b s' (hp s hs b s' hrun)

theorem pure
    {b : β} (h : ∀ s, P s → Q b s) :
    Gives P (Pure.pure b) Q := by
  intro s hs b' s' hrun
  cases hrun
  exact h s hs

theorem bind
    (hp : Gives P p R) (hf : ∀ a, Gives (R a) (f a) Q) :
    Gives P (p >>= f) Q := by
  intro s hs b s' hrun
  change EStateM.bind p f s = .ok b s' at hrun
  unfold EStateM.bind at hrun
  cases hfirst : p s with
  | error e t =>
      rw [hfirst] at hrun
      cases hrun
  | ok a t =>
      rw [hfirst] at hrun
      exact hf a t (hp s hs a t hfirst) b s' hrun

theorem fail
    {expected : List Expected} :
    Gives P (failExpecting expected : Parse β) Q := by
  intro s _ b s' hrun
  cases hrun

theorem ite
    {p q : Parse β} {c : Prop} [Decidable c] (hp : c → Gives P p Q) (hq : ¬ c → Gives P q Q) :
    Gives P (if c then p else q) Q := by
  split
  · next hc =>
      exact hp hc
  · next hc =>
      exact hq hc

/-- What is the case in every state that is read from. -/
theorem given
    {c : Prop} {p : Parse β} (hc : ∀ s, P s → c) (hp : c → Gives P p Q) :
    Gives P p Q := by
  intro s hs
  exact hp (hc s hs) s hs

theorem current
    {Q : Token → State → Prop} (h : ∀ s, P s → Q s.current.1 s) :
    Gives P Grammar.current Q := by
  intro s hs t s' hrun
  cases hrun
  exact h s hs

theorem advance
    {Q : Unit → State → Prop} (h : ∀ s, P s → Q () s.advance) :
    Gives P Grammar.advance Q := by
  intro s hs u s' hrun
  cases hrun
  exact h s hs

theorem atMark
    {m : Mark} {Q : Bool → State → Prop} (h : ∀ s, P s → Q (s.current.1.isMark m) s) :
    Gives P (Grammar.atMark m) Q := by
  intro s hs b s' hrun
  cases hrun
  exact h s hs

theorem eatMark
    {m : Mark} {Q : Bool → State → Prop}
    (hmark : ∀ s, P s → s.current.1.isMark m = true → Q true s.advance)
    (hother : ∀ s, P s → s.current.1.isMark m = false → Q false s) :
    Gives P (Grammar.eatMark m) Q := by
  refine bind (R := fun b s => P s ∧ s.current.1.isMark m = b) (atMark fun s hs => ⟨hs, rfl⟩)
    fun b => ?_
  cases b with
  | true =>
      exact bind (advance fun s hs => hmark s hs.1 hs.2) fun _ => pure fun s hs => hs
  | false =>
      exact pure fun s hs => hother s hs.1 hs.2

theorem eatWord
    {w : Keyword} {Q : Bool → State → Prop} (hword : ∀ s, P s → Q true s.advance)
    (hother : ∀ s, P s → Q false s) :
    Gives P (Grammar.eatWord w) Q := by
  have hlook : Gives P (atWord w) fun _ s => P s :=
    bind (R := fun _ s => P s) (current fun s hs => hs) fun _ => pure fun s hs => hs
  refine bind hlook fun b => ?_
  cases b with
  | true =>
      exact bind (advance hword) fun _ => pure fun s hs => hs
  | false =>
      exact pure hother

theorem expectMark
    {m : Mark} {Q : Unit → State → Prop} (h : ∀ s, P s → Q () s.advance) :
    Gives P (Grammar.expectMark m) Q := by
  refine bind (eatMark (Q := fun b s => b = true → Q () s) (fun s hs _ _ => h s hs) ?_) fun b => ?_
  · rintro s - - ⟨⟩
  · cases b with
    | true =>
        exact pure fun s hs => hs rfl
    | false =>
        exact fail

/-- Each round of a repetition keeps what the next one needs. -/
theorem repeatRead
    {round : α → Parse (Round α β)} {a : α} (hstart : ∀ s, P s → R a s)
    (hround : ∀ a, Gives (R a) (round a) (AfterRound R Q)) :
    Gives P (Grammar.repeatRead round a) Q := by
  have hbounded (n : Nat) : ∀ a, Gives (R a) (repeatBounded round n a) Q := by
    induction n with
    | zero =>
        intro a s _ b s' hrun
        cases hrun
    | succ n ih =>
        intro a
        refine bind (hround a) fun r => ?_
        cases r with
        | again a' =>
            exact ih a'
        | done b =>
            exact pure fun s hs => hs
  intro s hs
  exact hbounded (s.size + 1) a s (hstart s hs)

end Gives

/-- A state at a depth, all of whose names are names. -/
structure Sound (k : Nat) (s : State) : Prop where
  depth : s.depth = k
  names : ∀ n sp, (Token.identifier n, sp) ∈ s.rest → IsName n

namespace Sound

variable {k : Nat} {s : State}

theorem advance
    (h : Sound k s) :
    Sound k s.advance := by
  unfold State.advance
  split
  · next t u r hrest =>
      refine ⟨h.depth, fun n sp hmem => h.names n sp ?_⟩
      rw [hrest]
      exact List.mem_cons_of_mem _ hmem
  · exact h

theorem isName
    (h : Sound k s) {n : String} (hcurrent : s.current.1 = .identifier n) :
    IsName n := by
  unfold State.current at hcurrent
  cases hrest : s.rest with
  | nil =>
      rw [hrest] at hcurrent
      cases hcurrent
  | cons t r =>
      rw [hrest] at hcurrent
      refine h.names n t.2 ?_
      rw [hrest, ← (show t.1 = _ from hcurrent)]
      exact List.mem_cons_self

end Sound

/-- A reader one level deeper. -/
theorem Gives.nested
    {α : Type} {k : Nat} {p : Parse α} {Q : α → Token → Prop}
    (hp : k < maxDepth → Gives (Sound (k + 1)) p fun a s => Sound (k + 1) s ∧ Q a s.current.1) :
    Gives (Sound k) (Grammar.nested p) fun a s => Sound k s ∧ Q a s.current.1 := by
  intro s hs a s' hrun
  have hdepth := hs.depth
  rw [nested_apply] at hrun
  split at hrun
  · cases hrun
  · next hlimit =>
      have hdeeper : Sound (k + 1) { s with depth := s.depth + 1 } :=
        ⟨congrArg (· + 1) hdepth, hs.names⟩
      cases hfirst : p { s with depth := s.depth + 1 } with
      | error e t =>
          rw [hfirst] at hrun
          cases hrun
      | ok b t =>
          rw [hfirst] at hrun
          cases hrun
          obtain ⟨hsound, hQ⟩ := hp (by omega) _ hdeeper _ _ hfirst
          exact ⟨⟨congrArg (· - 1) hsound.depth, hsound.names⟩, hQ⟩

/-! ### Types -/

section Types

open TypeExpr

theorem isName_nil :
    IsName "Nil" where
  start := ⟨'N', ['i', 'l'], rfl, rfl⟩
  parts := List.all_eq_true.mp rfl
  free := by decide

/-- A type was read, and no other member follows. -/
def WithType (k : Nat) (t : TypeExpr) (s : State) : Prop :=
  Sound k s ∧ Readable (maxDepth - k) .whole t ∧ s.current.1.isMark .pipe = false

/-- A reader of types that can be read. -/
def ReadsTypes (g : Reader) : Prop := ∀ k, Gives (Sound k) g.type (WithType k)

/-- Types that can be read were read. -/
def WithArgs (k : Nat) (args : List TypeExpr) (s : State) : Prop :=
  Sound k s ∧ ∀ a ∈ args, Readable (maxDepth - k) .whole a

/-- A member of a union was read; a bounded one is the last. -/
def WithMember (d k : Nat) (t : TypeExpr) (s : State) : Prop :=
  Sound k s ∧ Readable d .member t ∧ (t.isBounded = true → s.current.1.isMark .pipe = false)

/-- Members of a union were read, and there is another one if there is only one yet. -/
structure WithMembers (k : Nat) (ms : List TypeExpr) (s : State) : Prop where
  sound : Sound k s
  readable : ∀ m ∈ ms, Readable (maxDepth - k) .member m
  bounded : ms.IsChain fun m _ => m.isBounded = false
  last : ∀ m ∈ ms.getLast?, m.isBounded = true → s.current.1.isMark .pipe = false
  some : 1 ≤ ms.length
  several : 2 ≤ ms.length ∨ s.current.1.isMark .pipe = true

/-- Members of a union were read, and it is known whether there are more. -/
structure BetweenMembers (k : Nat) (ms : List TypeExpr) (more : Bool) (s : State) : Prop where
  sound : Sound k s
  readable : ∀ m ∈ ms, Readable (maxDepth - k) .member m
  bounded : ms.IsChain fun m _ => m.isBounded = false
  some : 1 ≤ ms.length
  last : more = true → ∀ m ∈ ms.getLast?, m.isBounded = false
  ended : more = false → 2 ≤ ms.length ∧ s.current.1.isMark .pipe = false

variable {g : Reader} {k : Nat}

theorem gives_typeArgs
    (hg : ReadsTypes g) :
    Gives (Sound k) (typeArgs g) (WithArgs k) := by
  have hclose (args : List TypeExpr) :
      Gives (WithArgs k args) (do
        expectMark .greater
        return args) (WithArgs k) :=
    .bind (.expectMark (Q := fun _ => WithArgs k args) fun s hs => ⟨hs.1.advance, hs.2⟩)
      fun _ => .pure fun s hs => hs
  refine .bind (.expectMark (Q := fun _ => Sound k) fun s hs => hs.advance) fun _ => ?_
  refine .bind (.atMark (Q := fun _ => Sound k) fun s hs => hs) fun b => ?_
  have hnone (s : State) (hs : Sound k s) : WithArgs k [] s :=
    ⟨hs, fun a ha => nomatch ha⟩
  refine .ite (fun _ => .bind (.pure hnone) hclose) (fun _ => .bind (.repeatRead hnone ?_) hclose)
  intro acc
  have hread : Gives (WithArgs k acc) g.type fun t => WithArgs k (acc ++ [t]) := by
    intro s hs t s' hrun
    obtain ⟨hsound, ht, -⟩ := hg k s hs.1 t s' hrun
    exact ⟨hsound, fun a ha => (List.mem_append.mp ha).elim (hs.2 a) fun ha =>
      List.mem_singleton.mp ha ▸ ht⟩
  refine .bind hread fun t => ?_
  refine .bind (.eatMark (Q := fun _ => WithArgs k (acc ++ [t])) ?_ fun s hs _ => hs) fun b => ?_
  · exact fun s hs _ => ⟨hs.1.advance, hs.2⟩
  · exact .ite (fun _ => .pure fun s hs => hs) fun _ => .pure fun s hs => hs

/-- A type that is not a union. -/
theorem gives_typeAtomHere
    (hg : ReadsTypes g) :
    Gives (Sound k) (typeAtomHere g) (WithMember (maxDepth - k + 1) k) := by
  refine .bind (.current (Q := fun t s => Sound k s ∧ s.current.1 = t) fun s hs => ⟨hs, rfl⟩) ?_
  intro t
  have hadvance {t : Token} :
      Gives (fun s => Sound k s ∧ s.current.1 = t) advance fun _ => Sound k :=
    .advance fun s hs => hs.1.advance
  have hbound (f : TypeExpr → TypeExpr) (hf : ∀ b, Readable (maxDepth - k) .whole b →
      Readable (maxDepth - k + 1) .member (f b)) :
      Gives (Sound k) (do return f (← g.type)) (WithMember (maxDepth - k + 1) k) := by
    refine .bind (hg k) fun b => .pure fun s hs => ?_
    exact ⟨hs.1, hf b hs.2.1, fun _ => hs.2.2⟩
  have hword (w : Keyword) {p q : Parse TypeExpr} {Q : TypeExpr → State → Prop}
      (hp : Gives (Sound k) p Q) (hq : Gives (Sound k) q Q) :
      Gives (Sound k) (do if ← eatWord w then p else q) Q := by
    refine .bind (.eatWord (Q := fun _ => Sound k) (fun s hs => hs.advance) fun s hs => hs) ?_
    exact fun b => .ite (fun _ => hp) fun _ => hq
  split
  · refine .bind hadvance fun _ => ?_
    refine hword _ (hbound _ fun b => .boundedAbove) (hword _ (hbound _ fun b => .boundedBelow) ?_)
    exact .pure fun s hs => ⟨hs, .wildcard, fun h => nomatch h⟩
  · next n =>
      refine .given (fun s hs => hs.1.isName hs.2) fun hname => ?_
      have hnamed (args : List TypeExpr) :
          Gives (WithArgs k args) (return .named n args) (WithMember (maxDepth - k + 1) k) :=
        .pure fun s hs => ⟨hs.1, .named hname hs.2, fun h => nomatch h⟩
      refine .bind hadvance fun _ => ?_
      refine .bind (.atMark (Q := fun _ => Sound k) fun s hs => hs) fun b => ?_
      refine .ite (fun _ => .bind (gives_typeArgs hg) hnamed) fun _ => .bind (.pure ?_) hnamed
      exact fun s hs => ⟨hs, fun a ha => nomatch ha⟩
  · refine .bind hadvance fun _ => .pure fun s hs => ⟨hs, ?_, fun h => nomatch h⟩
    exact .named isName_nil fun a ha => nomatch ha
  · exact .fail

theorem gives_typeAtom
    (hg : ReadsTypes g) :
    Gives (Sound k) (typeAtom g) (WithMember (maxDepth - k) k) := by
  have hnested : Gives (Sound k) (typeAtom g) fun t s => Sound k s ∧
      Readable (maxDepth - k) .member t ∧
        (t.isBounded = true → s.current.1.isMark .pipe = false) := by
    refine .nested (Q := fun t u => Readable (maxDepth - k) .member t ∧
      (t.isBounded = true → u.isMark .pipe = false)) fun hlimit => ?_
    have hlevel : maxDepth - (k + 1) + 1 = maxDepth - k := by omega
    rw [← hlevel]
    exact gives_typeAtomHere hg
  exact hnested

/-- A round that reads another member, or ends the union. -/
def memberRound (g : Reader) (ms : List TypeExpr) : Parse (Round (List TypeExpr) TypeExpr) := do
  if ← eatMark .pipe then return .again (ms ++ [← typeAtom g])
  else return .done (.union ms)

theorem gives_memberRound
    (hg : ReadsTypes g) (ms : List TypeExpr) :
    Gives (WithMembers k ms) (memberRound g ms) (AfterRound (WithMembers k) (WithType k)) := by
  -- where another member follows, the last one so far has no bound
  refine .bind (.eatMark (Q := BetweenMembers k ms) ?_ ?_) fun more => ?_
  · intro s hs hpipe
    refine ⟨hs.sound.advance, hs.readable, hs.bounded, hs.some, fun _ m hm => ?_, nofun⟩
    by_contra hbounded
    rw [hs.last m hm (by simpa using hbounded)] at hpipe
    cases hpipe
  · intro s hs hpipe
    refine ⟨hs.sound, hs.readable, hs.bounded, hs.some, nofun, fun _ => ⟨?_, hpipe⟩⟩
    exact hs.several.resolve_right (by simp [hpipe])
  · cases more with
    | true =>
        have hread : Gives (BetweenMembers k ms true) (typeAtom g) fun t =>
            WithMembers k (ms ++ [t]) := by
          intro s hs t s' hrun
          obtain ⟨hsound, ht, hend⟩ := gives_typeAtom hg s hs.sound t s' hrun
          refine ⟨hsound, ?_, ?_, by simpa using hend, by simp, .inl (by simpa using hs.some)⟩
          · simpa [or_imp, forall_and] using ⟨hs.readable, ht⟩
          · exact List.isChain_append.mpr
              ⟨hs.bounded, .singleton _, fun m hm _ _ => hs.last rfl m hm⟩
        exact .bind hread fun t => .pure fun s hs => hs
    | false =>
        refine .pure fun s hs => ?_
        obtain ⟨hseveral, hpipe⟩ := hs.ended rfl
        exact ⟨hs.sound, .union hseveral hs.readable hs.bounded, hpipe⟩

theorem gives_typeExpr
    (hg : ReadsTypes g) :
    Gives (Sound k) (typeExpr g) (WithType k) := by
  refine .bind (gives_typeAtom hg) fun first => ?_
  refine .bind (.atMark (Q := fun b s => WithMember (maxDepth - k) k first s ∧
    s.current.1.isMark .pipe = b) fun s hs => ⟨hs, rfl⟩) fun b => ?_
  cases b with
  | false =>
      exact .pure fun s ⟨⟨hsound, hfirst, _⟩, hpipe⟩ => ⟨hsound, .single hfirst, hpipe⟩
  | true =>
      refine .repeatRead (R := WithMembers k) (fun s hs => ?_) (gives_memberRound hg)
      obtain ⟨⟨hsound, hfirst, hlast⟩, hpipe⟩ := hs
      exact ⟨hsound, by simpa using hfirst, .singleton _, by simpa using hlast, Nat.le_refl 1,
        .inr hpipe⟩

theorem readsTypes_readers
    (n : Nat) :
    ReadsTypes (readers n) := by
  induction n with
  | zero =>
      intro k s _ t s' hrun
      cases hrun
  | succ n ih =>
      intro k
      exact gives_typeExpr ih

end Types

end Grammar
end ScriptEngine
