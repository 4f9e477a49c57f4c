import Mathlib.Data.List.Induction
import ScriptEngine.Proofs.Throws.Law

/-!
# The flight of a thrown value

A `Flight` is what a thread has open, together with the values that travel: the one on its way out,
and those that wait for a cleanup or a deferred call to complete.  `Step` says which event may come
next and what it makes of a flight; while a value is on its way out, there is only one.

Whatever runs along these steps obeys the law of thrown values (`Steps.throwLaw`).  The proof follows
a value from where it is thrown.  Where it meets a cleanup, the run of the cleanup is cut out
(`Steps.within`): what is open around it does not matter to it, so it is a run of its own.
-/

namespace ScriptEngine

/-- What a thread has open, with the values that wait in it. -/
inductive Layer
  | body (clauses : List (CatchClause Stmt))
  | shield
  /-- A cleanup, or a deferred call of a frame that has others to make; the value that waits. -/
  | cleanup (exit : Option (ScopeId × List Deferred)) (pending : Option Exception)
  | frame (f : ScopeId)
  | executor

/-- The state of a thread, so far as values are thrown in it. -/
structure Flight where
  layers : List Layer
  /-- The frame that is about to be left, with the deferred calls that are yet to be made. -/
  exit : Option (ScopeId × List Deferred)
  /-- The value that is on its way out. -/
  pending : Option Exception

/-- The flight of a thread that has begun. -/
def Flight.start : Flight := ⟨[], none, none⟩

/-- A frame that is about to be left is open. -/
def exitOf : Option (ScopeId × List Deferred) → List Construct
  | some (f, todo) => [.exit f todo]
  | none => []

/-- What is open in a layer. -/
def Layer.opened : Layer → List Construct
  | body clauses => [.body clauses]
  | shield => [.shield]
  | cleanup exit _ => .cleanup :: exitOf exit
  | frame f => [.frame f]
  | executor => [.executor]

/-- What is open, the innermost first. -/
def Flight.opened (s : Flight) : List Construct := exitOf s.exit ++ s.layers.flatMap Layer.opened

/-- What a note makes of a flight. -/
inductive Step : Flight → Note → Flight → Prop
  | tried {L : List Layer} {clauses : List (CatchClause Stmt)} {m : Memory} :
      Step ⟨L, none, none⟩ ⟨.tried clauses, m⟩ ⟨.body clauses :: L, none, none⟩
  | finished {L : List Layer} {clauses : List (CatchClause Stmt)} {m : Memory} :
      Step ⟨.body clauses :: L, none, none⟩ ⟨.finished, m⟩ ⟨L, none, none⟩
  | caught {L : List Layer} {clauses : List (CatchClause Stmt)} {e : Exception}
      {c : CatchClause Stmt} {m : Memory} :
      clauses.find? (e.TakenBy m) = some c →
      Step ⟨.body clauses :: L, none, some e⟩ ⟨.caught e c, m⟩ ⟨L, none, none⟩
  | passed {L : List Layer} {clauses : List (CatchClause Stmt)} {e : Exception} {m : Memory} :
      clauses.find? (e.TakenBy m) = none →
      Step ⟨.body clauses :: L, none, some e⟩ ⟨.passed e, m⟩ ⟨L, none, some e⟩
  | shielded {L : List Layer} {m : Memory} :
      Step ⟨L, none, none⟩ ⟨.shielded, m⟩ ⟨.shield :: L, none, none⟩
  | cleaning {L : List Layer} {p : Option Exception} {m : Memory} :
      Step ⟨.shield :: L, none, p⟩ ⟨.cleaning, m⟩ ⟨.cleanup none p :: L, none, none⟩
  | ran {L : List Layer} {f : ScopeId} {d : Deferred} {todo : List Deferred}
      {p : Option Exception} {m : Memory} :
      Step ⟨L, some (f, d :: todo), p⟩ ⟨.ran f d, m⟩ ⟨.cleanup (some (f, todo)) p :: L, none, none⟩
  | cleaned {L : List Layer} {exit : Option (ScopeId × List Deferred)} {p : Option Exception}
      {m : Memory} :
      Step ⟨.cleanup exit p :: L, none, none⟩ ⟨.cleaned, m⟩ ⟨L, exit, p⟩
  | overruled {L : List Layer} {exit : Option (ScopeId × List Deferred)}
      {p q : Option Exception} {m : Memory} :
      Step ⟨.cleanup exit p :: L, none, q⟩ ⟨.overruled, m⟩ ⟨L, exit, q⟩
  | entered {L : List Layer} {f : ScopeId} {caller : Option ScopeId} {m : Memory} :
      Step ⟨L, none, none⟩ ⟨.entered f caller, m⟩ ⟨.frame f :: L, none, none⟩
  | due {L : List Layer} {f : ScopeId} {defers : List Deferred} {p : Option Exception}
      {m : Memory} :
      Step ⟨.frame f :: L, none, p⟩ ⟨.due f defers, m⟩ ⟨L, some (f, defers.reverse), p⟩
  | left {L : List Layer} {f : ScopeId} {caller : Option ScopeId} {p : Option Exception}
      {m : Memory} :
      Step ⟨L, some (f, []), p⟩ ⟨.left f caller, m⟩ ⟨L, none, p⟩
  | threw {L : List Layer} {e : Exception} {m : Memory} :
      Step ⟨L, none, none⟩ ⟨.threw e, m⟩ ⟨L, none, some e⟩
  | executing {L : List Layer} {m : Memory} :
      Step ⟨L, none, none⟩ ⟨.executing, m⟩ ⟨.executor :: L, none, none⟩
  | executed {L : List Layer} {m : Memory} :
      Step ⟨.executor :: L, none, none⟩ ⟨.executed, m⟩ ⟨L, none, none⟩
  | rejected {L : List Layer} {e : Exception} {m : Memory} :
      Step ⟨.executor :: L, none, some e⟩ ⟨.rejected, m⟩ ⟨L, none, none⟩
  /-- While a value is on its way out, nothing is evaluated. -/
  | work {L : List Layer} {n : Note} :
      n.event.IsWork → Step ⟨L, none, none⟩ n ⟨L, none, none⟩
  /-- An evaluation and a call end with what is on its way out. -/
  | ends {L : List Layer} {q : Option Exception} {n : Note} :
      n.event.ends? = some q → Step ⟨L, none, q⟩ n ⟨L, none, q⟩
  | quiet {s : Flight} {n : Note} :
      n.event.IsQuiet → Step s n s

/-- What notes make of a flight, the oldest first. -/
inductive Steps : Flight → List Note → Flight → Prop
  | refl {s : Flight} : Steps s [] s
  | head {s₁ s₂ s₃ : Flight} {n : Note} {t : List Note} :
      Step s₁ n s₂ → Steps s₂ t s₃ → Steps s₁ (n :: t) s₃

namespace Steps

variable {s₁ s₂ s₃ : Flight} {n : Note} {t t' : List Note}

theorem one
    (hstep : Step s₁ n s₂) :
    Steps s₁ [n] s₂ := by
  exact .head hstep .refl

theorem trans
    (h₁ : Steps s₁ t s₂) (h₂ : Steps s₂ t' s₃) :
    Steps s₁ (t ++ t') s₃ := by
  induction h₁ with
  | refl =>
      exact h₂
  | head hstep _ ih =>
      exact .head hstep (ih h₂)

theorem snoc
    (h : Steps s₁ t s₂) (hstep : Step s₂ n s₃) :
    Steps s₁ (t ++ [n]) s₃ := by
  exact h.trans (.one hstep)

/-- A run of several notes falls into two. -/
theorem split
    (h : Steps s₁ (t ++ t') s₃) :
    ∃ s₂, Steps s₁ t s₂ ∧ Steps s₂ t' s₃ := by
  induction t generalizing s₁ with
  | nil =>
      exact ⟨s₁, .refl, h⟩
  | cons n t ih =>
      cases h with
      | head hstep hrest =>
          obtain ⟨s₂, h₁, h₂⟩ := ih hrest
          exact ⟨s₂, .head hstep h₁, h₂⟩

end Steps

/-! ### Nesting -/

theorem Event.next_work
    {ev : Event} (hwork : ev.IsWork) (K : List Construct) :
    ev.next K = some K := by
  cases ev <;> first | rfl | exact hwork.elim

theorem Event.next_ends
    {ev : Event} {q : Option Exception} (hends : ev.ends? = some q) (K : List Construct) :
    ev.next K = some K := by
  cases ev <;> first | rfl | cases hends

theorem Event.next_quiet
    {ev : Event} (hquiet : ev.IsQuiet) (K : List Construct) :
    ev.next K = some K := by
  cases ev <;> first | rfl | exact hquiet.elim

theorem Step.next
    {s s' : Flight} {n : Note} (hstep : Step s n s') :
    n.event.next s.opened = some s'.opened := by
  cases hstep with
  | work hwork =>
      exact Event.next_work hwork _
  | ends hends =>
      exact Event.next_ends hends _
  | quiet hquiet =>
      exact Event.next_quiet hquiet _
  | _ =>
      simp [Flight.opened, Layer.opened, exitOf, Event.next]

theorem Steps.nest
    {s s' : Flight} {t : List Note} (h : Steps s t s') :
    nest s.opened t = some s'.opened := by
  induction h with
  | refl =>
      rfl
  | head hstep _ ih =>
      rw [ScriptEngine.nest, hstep.next]
      exact ih

/-! ### Runs within a cleanup -/

/-- What follows a cleanup or a deferred call: what was pending, if it completes, or its outcome. -/
inductive Closes (exit : Option (ScopeId × List Deferred)) (p : Option Exception)
    (L : List Layer) : Option Exception → Note → Flight → Prop
  | cleaned {m : Memory} : Closes exit p L none ⟨.cleaned, m⟩ ⟨L, exit, p⟩
  | overruled (q : Option Exception) {m : Memory} : Closes exit p L q ⟨.overruled, m⟩ ⟨L, exit, q⟩

/-- A layer within a cleanup, or the cleanup itself. -/
theorem top_within
    {S L M : List Layer} {X Y : Layer} (h : S ++ X :: L = Y :: M) :
    (∃ S', S = Y :: S' ∧ M = S' ++ X :: L) ∨ S = [] ∧ X = Y ∧ L = M := by
  cases S with
  | nil =>
      cases h
      exact .inr ⟨rfl, rfl, rfl⟩
  | cons Z S' =>
      cases h
      exact .inl ⟨S', rfl, rfl⟩

/-- A step within a cleanup does not depend on what is around, or it closes the cleanup. -/
theorem Step.within
    {S L : List Layer} {x exit : Option (ScopeId × List Deferred)} {p q : Option Exception}
    {n : Note} {s : Flight} (hstep : Step ⟨S ++ .cleanup exit p :: L, x, q⟩ n s) :
    (∃ S' x' q', s = ⟨S' ++ .cleanup exit p :: L, x', q'⟩ ∧ Step ⟨S, x, q⟩ n ⟨S', x', q'⟩) ∨
      S = [] ∧ x = none ∧ Closes exit p L q n s := by
  generalize hlayers : S ++ .cleanup exit p :: L = layers at hstep
  cases hstep with
  -- something more is opened
  | tried =>
      subst hlayers
      exact .inl ⟨.body _ :: S, _, _, rfl, .tried⟩
  | shielded =>
      subst hlayers
      exact .inl ⟨.shield :: S, _, _, rfl, .shielded⟩
  | ran =>
      subst hlayers
      exact .inl ⟨.cleanup _ _ :: S, _, _, rfl, .ran⟩
  | entered =>
      subst hlayers
      exact .inl ⟨.frame _ :: S, _, _, rfl, .entered⟩
  | executing =>
      subst hlayers
      exact .inl ⟨.executor :: S, _, _, rfl, .executing⟩
  -- what is open stays open
  | left =>
      subst hlayers
      exact .inl ⟨S, _, _, rfl, .left⟩
  | threw =>
      subst hlayers
      exact .inl ⟨S, _, _, rfl, .threw⟩
  | work hwork =>
      subst hlayers
      exact .inl ⟨S, _, _, rfl, .work hwork⟩
  | ends hends =>
      subst hlayers
      exact .inl ⟨S, _, _, rfl, .ends hends⟩
  | quiet hquiet =>
      subst hlayers
      exact .inl ⟨S, _, _, rfl, .quiet hquiet⟩
  -- the innermost is closed
  | finished =>
      obtain ⟨S', rfl, rfl⟩ | ⟨-, hne, -⟩ := top_within hlayers
      · exact .inl ⟨S', _, _, rfl, .finished⟩
      · cases hne
  | caught hclause =>
      obtain ⟨S', rfl, rfl⟩ | ⟨-, hne, -⟩ := top_within hlayers
      · exact .inl ⟨S', _, _, rfl, .caught hclause⟩
      · cases hne
  | passed hnone =>
      obtain ⟨S', rfl, rfl⟩ | ⟨-, hne, -⟩ := top_within hlayers
      · exact .inl ⟨S', _, _, rfl, .passed hnone⟩
      · cases hne
  | cleaning =>
      obtain ⟨S', rfl, rfl⟩ | ⟨-, hne, -⟩ := top_within hlayers
      · exact .inl ⟨.cleanup none _ :: S', _, _, rfl, .cleaning⟩
      · cases hne
  | due =>
      obtain ⟨S', rfl, rfl⟩ | ⟨-, hne, -⟩ := top_within hlayers
      · exact .inl ⟨S', _, _, rfl, .due⟩
      · cases hne
  | executed =>
      obtain ⟨S', rfl, rfl⟩ | ⟨-, hne, -⟩ := top_within hlayers
      · exact .inl ⟨S', _, _, rfl, .executed⟩
      · cases hne
  | rejected =>
      obtain ⟨S', rfl, rfl⟩ | ⟨-, hne, -⟩ := top_within hlayers
      · exact .inl ⟨S', _, _, rfl, .rejected⟩
      · cases hne
  | cleaned =>
      obtain ⟨S', rfl, rfl⟩ | ⟨rfl, heq, rfl⟩ := top_within hlayers
      · exact .inl ⟨S', _, _, rfl, .cleaned⟩
      · cases heq
        exact .inr ⟨rfl, rfl, .cleaned⟩
  | overruled =>
      obtain ⟨S', rfl, rfl⟩ | ⟨rfl, heq, rfl⟩ := top_within hlayers
      · exact .inl ⟨S', _, _, rfl, .overruled⟩
      · cases heq
        exact .inr ⟨rfl, rfl, .overruled q⟩

/-- A run within a cleanup is a run of its own, up to where the cleanup is closed. -/
theorem Steps.within
    {S L : List Layer} {x exit : Option (ScopeId × List Deferred)} {p q : Option Exception}
    {t : List Note} {s : Flight} (h : Steps ⟨S ++ .cleanup exit p :: L, x, q⟩ t s) :
    (∃ S' x' q', s = ⟨S' ++ .cleanup exit p :: L, x', q'⟩ ∧ Steps ⟨S, x, q⟩ t ⟨S', x', q'⟩) ∨
      ∃ block n rest q' s', t = block ++ n :: rest ∧ Steps ⟨S, x, q⟩ block ⟨[], none, q'⟩ ∧
        Closes exit p L q' n s' ∧ Steps s' rest s := by
  induction t generalizing S x q with
  | nil =>
      cases h
      exact .inl ⟨S, x, q, rfl, .refl⟩
  | cons n t ih =>
      cases h with
      | head hstep hrest =>
          obtain ⟨S₁, x₁, q₁, rfl, hown⟩ | ⟨rfl, rfl, hcloses⟩ := hstep.within
          · obtain ⟨S', x', q', rfl, hrun⟩ | ⟨block, n', rest, q', s', rfl, hblock, hcloses, hrun⟩ :=
              ih hrest
            · exact .inl ⟨S', x', q', rfl, .head hown hrun⟩
            · exact .inr ⟨n :: block, n', rest, q', s', rfl, .head hown hblock, hcloses, hrun⟩
          · exact .inr ⟨[], n, t, q, _, rfl, .refl, hcloses, hrest⟩

/-! ### From a throw on -/

/-- A run of its own that ends with nothing open is properly nested. -/
theorem Steps.nest_nil
    {t : List Note} {q : Option Exception} (h : Steps .start t ⟨[], none, q⟩) :
    ScriptEngine.nest [] t = some [] := by
  exact h.nest

/-- A cleanup or a deferred call begins in a flight, with what waits for it. -/
inductive Opens : Option (ScopeId × List Deferred) → Option Exception → List Layer → Flight →
    Note → Prop
  | cleanup {p : Option Exception} {L : List Layer} {m : Memory} :
      Opens none p L ⟨.shield :: L, none, p⟩ ⟨.cleaning, m⟩
  | deferred {f : ScopeId} {d : Deferred} {todo : List Deferred} {p : Option Exception}
      {L : List Layer} {m : Memory} :
      Opens (some (f, todo)) p L ⟨L, some (f, d :: todo), p⟩ ⟨.ran f d, m⟩

/-- A step into what is within a cleanup comes from within it, or it opens the cleanup. -/
theorem Step.into
    {S L : List Layer} {x exit : Option (ScopeId × List Deferred)} {p q : Option Exception}
    {n : Note} {s : Flight} (hstep : Step s n ⟨S ++ .cleanup exit p :: L, x, q⟩) :
    (∃ S' x' q', s = ⟨S' ++ .cleanup exit p :: L, x', q'⟩ ∧ Step ⟨S', x', q'⟩ n ⟨S, x, q⟩) ∨
      S = [] ∧ x = none ∧ q = none ∧ Opens exit p L s n := by
  generalize hlayers : S ++ .cleanup exit p :: L = layers at hstep
  cases hstep with
  -- the innermost has been closed
  | finished =>
      subst hlayers
      exact .inl ⟨.body _ :: S, _, _, rfl, .finished⟩
  | caught hclause =>
      subst hlayers
      exact .inl ⟨.body _ :: S, _, _, rfl, .caught hclause⟩
  | passed hnone =>
      subst hlayers
      exact .inl ⟨.body _ :: S, _, _, rfl, .passed hnone⟩
  | cleaned =>
      subst hlayers
      exact .inl ⟨.cleanup _ _ :: S, _, _, rfl, .cleaned⟩
  | overruled =>
      subst hlayers
      exact .inl ⟨.cleanup _ _ :: S, _, _, rfl, .overruled⟩
  | due =>
      subst hlayers
      exact .inl ⟨.frame _ :: S, _, _, rfl, .due⟩
  | executed =>
      subst hlayers
      exact .inl ⟨.executor :: S, _, _, rfl, .executed⟩
  | rejected =>
      subst hlayers
      exact .inl ⟨.executor :: S, _, _, rfl, .rejected⟩
  -- what is open has been open before
  | left =>
      subst hlayers
      exact .inl ⟨S, _, _, rfl, .left⟩
  | threw =>
      subst hlayers
      exact .inl ⟨S, _, _, rfl, .threw⟩
  | work hwork =>
      subst hlayers
      exact .inl ⟨S, _, _, rfl, .work hwork⟩
  | ends hends =>
      subst hlayers
      exact .inl ⟨S, _, _, rfl, .ends hends⟩
  | quiet hquiet =>
      subst hlayers
      exact .inl ⟨S, _, _, rfl, .quiet hquiet⟩
  -- the innermost has been opened
  | tried =>
      obtain ⟨S', rfl, rfl⟩ | ⟨-, hne, -⟩ := top_within hlayers
      · exact .inl ⟨S', _, _, rfl, .tried⟩
      · cases hne
  | shielded =>
      obtain ⟨S', rfl, rfl⟩ | ⟨-, hne, -⟩ := top_within hlayers
      · exact .inl ⟨S', _, _, rfl, .shielded⟩
      · cases hne
  | entered =>
      obtain ⟨S', rfl, rfl⟩ | ⟨-, hne, -⟩ := top_within hlayers
      · exact .inl ⟨S', _, _, rfl, .entered⟩
      · cases hne
  | executing =>
      obtain ⟨S', rfl, rfl⟩ | ⟨-, hne, -⟩ := top_within hlayers
      · exact .inl ⟨S', _, _, rfl, .executing⟩
      · cases hne
  | cleaning =>
      obtain ⟨S', rfl, rfl⟩ | ⟨rfl, heq, rfl⟩ := top_within hlayers
      · exact .inl ⟨.shield :: S', _, _, rfl, .cleaning⟩
      · cases heq
        exact .inr ⟨rfl, rfl, rfl, .cleanup⟩
  | ran =>
      obtain ⟨S', rfl, rfl⟩ | ⟨rfl, heq, rfl⟩ := top_within hlayers
      · exact .inl ⟨S', _, _, rfl, .ran⟩
      · cases heq
        exact .inr ⟨rfl, rfl, rfl, .deferred⟩

/-- A thread that is within a cleanup has opened it, and what followed is a run of its own. -/
theorem Steps.into
    {S L : List Layer} {x exit : Option (ScopeId × List Deferred)} {p q : Option Exception}
    {t : List Note} (h : Steps .start t ⟨S ++ .cleanup exit p :: L, x, q⟩) :
    ∃ t₁ n block s₁, t = t₁ ++ n :: block ∧ Steps .start t₁ s₁ ∧ Opens exit p L s₁ n ∧
      Steps .start block ⟨S, x, q⟩ := by
  induction t using List.reverseRecOn generalizing S x q with
  | nil =>
      generalize hs : (⟨S ++ .cleanup exit p :: L, x, q⟩ : Flight) = s at h
      cases h
      simp [Flight.start] at hs
  | append_singleton t n ih =>
      obtain ⟨s₂, hrun, hlast⟩ := h.split
      cases hlast with
      | head hstep hnil =>
          cases hnil
          obtain ⟨S', x', q', rfl, hown⟩ | ⟨rfl, rfl, rfl, hopens⟩ := hstep.into
          · obtain ⟨t₁, n', block, s₁, rfl, hbefore, hopens, hblock⟩ := ih hrun
            exact ⟨t₁, n', block ++ [n], s₁, by simp, hbefore, hopens, hblock.snoc hown⟩
          · exact ⟨t, n, [], s₂, rfl, hrun, hopens, .refl⟩

/-- A value that is on its way out has been thrown. -/
theorem Steps.origin
    {L : List Layer} {x : Option (ScopeId × List Deferred)} {e : Exception} {t : List Note}
    (h : Steps .start t ⟨L, x, some e⟩) :
    ThrownTo t e (Flight.opened ⟨L, x, some e⟩) := by
  induction hn : t.length using Nat.strongRecOn generalizing L x t with
  | ind n ih =>
      subst hn
      obtain rfl | ⟨t, n, rfl⟩ := t.eq_nil_or_concat
      · cases h
      · rw [List.concat_eq_append] at h ih ⊢
        obtain ⟨s₂, hrun, hlast⟩ := h.split
        have hlt : t.length < (t ++ [n]).length := by simp
        cases hlast with
        | head hstep hnil =>
            cases hnil
            cases hstep with
            | threw =>
                exact ⟨t, _, [], _, rfl, hrun.nest, .here⟩
            | passed hnone =>
                exact (ih _ hlt hrun rfl).trans (.body hnone .here)
            | ends hends =>
                exact (ih _ hlt hrun rfl).trans (.ends hends .here)
            | overruled =>
                exact (ih _ hlt hrun rfl).trans (.cleanup .here)
            | due =>
                exact (ih _ hlt hrun rfl).trans (.due .here)
            | left =>
                exact (ih _ hlt hrun rfl).trans (.left .here)
            | quiet hquiet =>
                exact (ih _ hlt hrun rfl).trans (.quiet hquiet .here)
            | @cleaned _ _ _ m =>
                obtain ⟨t₁, n, block, s₁, rfl, hbefore, hopens, hblock⟩ := Steps.into (S := []) hrun
                have hlt₁ : t₁.length < (t₁ ++ n :: block ++ [(⟨.cleaned, m⟩ : Note)]).length := by simp
                rw [List.append_assoc]
                cases hopens with
                | cleanup =>
                    exact (ih _ hlt₁ hbefore rfl).trans (.cleans .cleanup hblock.nest_nil .here)
                | deferred =>
                    exact (ih _ hlt₁ hbefore rfl).trans (.cleans .deferred hblock.nest_nil .here)

end ScriptEngine
