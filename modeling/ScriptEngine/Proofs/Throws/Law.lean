import ScriptEngine.Eval.Monad
import ScriptEngine.Proofs.Evaluation.Notes

/-!
# The law of thrown values

A value that is thrown travels outwards until a clause takes it.  This module says so of what is noted
of one thread alone.

**Nesting.** The bodies of tries, cleanups, frames and executors begin and end properly nested.
`nest` tells which of them are open after some notes, the innermost first.

**The way out.** `Travels e K t K'` says that a value `e` leaves what is open in `K` as far as `K'`,
and that the notes `t` tell all that happens meanwhile: no clause of a try body on the way takes it, each
cleanup and each deferred call on the way runs once, to its end, and nothing else is evaluated.

**The law.** For every value that is thrown, `Fate` says what becomes of it: the first clause that
takes it, of the innermost try that has one, an executor, or nobody.  A cleanup on the way that does
not complete puts its own outcome in the place of the value.
-/

namespace ScriptEngine

/-! ### What is open -/

/-- Something in which a thread is. -/
inductive Construct
  /-- The body of a try with some clauses. -/
  | body (clauses : List (CatchClause Stmt))
  /-- What a cleanup is to follow: the body of its try, or the clause that takes what it throws. -/
  | shield
  /-- A cleanup or a deferred call. -/
  | cleanup
  | frame (f : ScopeId)
  /-- A frame whose body has stopped, with the deferred calls that are yet to be made. -/
  | exit (f : ScopeId) (todo : List Deferred)
  | executor

/-- What is open after an event; nothing if the event does not fit. -/
def Event.next : Event → List Construct → Option (List Construct)
  | .tried clauses, K => some (.body clauses :: K)
  | .finished, .body _ :: K => some K
  | .caught .., .body _ :: K => some K
  | .passed _, .body _ :: K => some K
  | .shielded, K => some (.shield :: K)
  | .cleaning, .shield :: K => some (.cleanup :: K)
  | .cleaned, .cleanup :: K => some K
  | .overruled, .cleanup :: K => some K
  | .entered f _, K => some (.frame f :: K)
  | .due f defers, .frame g :: K => if g = f then some (.exit f defers.reverse :: K) else none
  | .ran f _, .exit g (_ :: todo) :: K =>
      if g = f then some (.cleanup :: .exit f todo :: K) else none
  | .left f _, .exit g [] :: K => if g = f then some K else none
  | .executing, K => some (.executor :: K)
  | .executed, .executor :: K => some K
  | .rejected, .executor :: K => some K
  | .threw _, K => some K
  | .deferred .., K => some K
  | .stopped _, K => some K
  | .faulted _, K => some K
  | .superseded _, K => some K
  | .began .., K => some K
  | .ended .., K => some K
  | .called .., K => some K
  | .refused _, K => some K
  | .answered .., K => some K
  | .building .., K => some K
  | _, _ => none

/-- What is open after some notes, the innermost first. -/
def nest (K : List Construct) : List Note → Option (List Construct)
  | [] => some K
  | n :: t => (n.event.next K).bind (nest · t)

/-- The value that a signal throws. -/
def Signal.thrown? : Signal → Option Exception
  | .thrown e => some e
  | .fault _ => none

/-- The value that an outcome throws. -/
def thrownBy {α : Type} : Except Signal α → Option Exception
  | .error s => s.thrown?
  | .ok _ => none

theorem thrownBy_eq_none
    {α : Type} {o : Except Signal α} (hother : ∀ e, o = .error (.thrown e) → False) :
    thrownBy o = none := by
  match o with
  | .ok a => rfl
  | .error (.fault f) => rfl
  | .error (.thrown e) => exact (hother e rfl).elim

/-- What is thrown where an evaluation or a call ends. -/
def Event.ends? : Event → Option (Option Exception)
  | .ended _ outcome => some (thrownBy outcome)
  | .answered _ outcome => some (thrownBy outcome)
  | _ => none

/-- Whether something is done in an event that is no matter of thrown values. -/
def Event.IsWork : Event → Prop
  | .began .. | .called .. | .refused _ | .deferred .. | .faulted _ | .building .. =>
      True
  | _ => False

/-- Whether an event is no matter of thrown values. -/
def Event.IsQuiet : Event → Prop
  | .stopped _ | .superseded _ => True
  | _ => False

/-- A cleanup or a deferred call begins; what is then open around it. -/
inductive Begins : List Construct → Event → List Construct → Prop
  | cleanup {K : List Construct} :
      Begins (.shield :: K) .cleaning K
  | deferred {f : ScopeId} {d : Deferred} {todo : List Deferred} {K : List Construct} :
      Begins (.exit f (d :: todo) :: K) (.ran f d) (.exit f todo :: K)

/-- Whether a clause takes a value, in the memory of some moment. -/
def Exception.TakenBy (e : Exception) (m : Memory) (c : CatchClause Stmt) : Bool :=
  c.takes (m.heap.instanceOf e.value)

theorem Heap.takenBy_memory
    (h : Heap) (e : Exception) :
    e.TakenBy h.toMemory = fun c => c.takes (h.instanceOf e.value) := by
  funext c
  rw [Exception.TakenBy, funext (h.instanceOf_memory e.value)]

/-- A value leaves what is open, and what happens meanwhile. -/
inductive Travels (e : Exception) : List Construct → List Note → List Construct → Prop
  | here {K : List Construct} :
      Travels e K [] K
  | quiet {n : Note} {t : List Note} {K K' : List Construct} :
      n.event.IsQuiet → Travels e K t K' → Travels e K (n :: t) K'
  /-- An evaluation or a call ends with it. -/
  | ends {n : Note} {t : List Note} {K K' : List Construct} :
      n.event.ends? = some (some e) → Travels e K t K' → Travels e K (n :: t) K'
  /-- No clause of a try takes it. -/
  | body {m : Memory} {clauses : List (CatchClause Stmt)} {t : List Note} {K K' : List Construct} :
      clauses.find? (e.TakenBy m) = none → Travels e K t K' →
      Travels e (.body clauses :: K) (⟨.passed e, m⟩ :: t) K'
  /-- A cleanup or a deferred call runs to its end. -/
  | cleans {n : Note} {m : Memory} {block t : List Note} {K K₁ K' : List Construct} :
      Begins K n.event K₁ → nest [] block = some [] → Travels e K₁ t K' →
      Travels e K (n :: block ++ ⟨.cleaned, m⟩ :: t) K'
  /-- It leaves the cleanup that has thrown it. -/
  | cleanup {m : Memory} {t : List Note} {K K' : List Construct} :
      Travels e K t K' → Travels e (.cleanup :: K) (⟨.overruled, m⟩ :: t) K'
  | due {f : ScopeId} {defers : List Deferred} {m : Memory} {t : List Note} {K K' : List Construct} :
      Travels e (.exit f defers.reverse :: K) t K' →
      Travels e (.frame f :: K) (⟨.due f defers, m⟩ :: t) K'
  | left {f : ScopeId} {caller : Option ScopeId} {m : Memory} {t : List Note}
      {K K' : List Construct} :
      Travels e K t K' → Travels e (.exit f [] :: K) (⟨.left f caller, m⟩ :: t) K'

theorem Travels.trans
    {e : Exception} {K₁ K₂ K₃ : List Construct} {t t' : List Note}
    (h₁ : Travels e K₁ t K₂) (h₂ : Travels e K₂ t' K₃) :
    Travels e K₁ (t ++ t') K₃ := by
  induction h₁ with
  | here =>
      exact h₂
  | quiet hquiet _ ih =>
      exact .quiet hquiet (ih h₂)
  | ends hends _ ih =>
      exact .ends hends (ih h₂)
  | body hnone _ ih =>
      exact .body hnone (ih h₂)
  | cleans hbegins hblock _ ih =>
      rw [List.append_assoc]
      exact .cleans hbegins hblock (ih h₂)
  | cleanup _ ih =>
      exact .cleanup (ih h₂)
  | due _ ih =>
      exact .due (ih h₂)
  | left _ ih =>
      exact .left (ih h₂)

/-! ### The law -/

/-- What becomes of a value that is thrown where something is open. -/
inductive Fate (e : Exception) (K : List Construct) (after : List Note) : Prop
  /-- A clause takes it: the first that can, of the innermost try that has one. -/
  | caught {way rest : List Note} {m : Memory} {clauses : List (CatchClause Stmt)}
      {c : CatchClause Stmt} {outer : List Construct} :
      Travels e K way (.body clauses :: outer) → clauses.find? (e.TakenBy m) = some c →
      after = way ++ ⟨.caught e c, m⟩ :: rest → Fate e K after
  /-- An executor rejects its promise with it. -/
  | rejected {way rest : List Note} {m : Memory} {outer : List Construct} :
      Travels e K way (.executor :: outer) → after = way ++ ⟨.rejected, m⟩ :: rest → Fate e K after
  /-- Nobody takes it, and the thread is over. -/
  | uncaught :
      Travels e K after [] → Fate e K after
  /-- A cleanup or a deferred call does not complete; its own outcome goes on. -/
  | overruled {way block rest : List Note} {n : Note} {m : Memory} {K₁ outer : List Construct} :
      Travels e K way K₁ → Begins K₁ n.event outer → nest [] block = some [] →
      after = way ++ n :: block ++ ⟨.overruled, m⟩ :: rest → Fate e K after
  /-- The thread has come no further. -/
  | travelling {K₁ : List Construct} :
      Travels e K after K₁ → K₁ ≠ [] → Fate e K after
  /-- The thread has come no further than into a cleanup or a deferred call. -/
  | waiting {way block : List Note} {n : Note} {K₁ outer S : List Construct} :
      Travels e K way K₁ → Begins K₁ n.event outer → nest [] block = some S →
      after = way ++ n :: block → Fate e K after

theorem Fate.after
    {e : Exception} {K K₁ : List Construct} {way t : List Note} (hway : Travels e K way K₁)
    (hfate : Fate e K₁ t) :
    Fate e K (way ++ t) := by
  cases hfate with
  | caught htravels hclause ht =>
      exact .caught (hway.trans htravels) hclause (by rw [ht, List.append_assoc])
  | rejected htravels ht =>
      exact .rejected (hway.trans htravels) (by rw [ht, List.append_assoc])
  | uncaught htravels =>
      exact .uncaught (hway.trans htravels)
  | @overruled way' block rest n m _ _ htravels hbegins hblock ht =>
      have heq : way ++ t = way ++ way' ++ n :: block ++ ⟨.overruled, m⟩ :: rest := by
        rw [ht]
        simp only [List.append_assoc]
      exact .overruled (hway.trans htravels) hbegins hblock heq
  | travelling htravels hopen =>
      exact .travelling (hway.trans htravels) hopen
  | @waiting way' block n _ _ _ htravels hbegins hblock ht =>
      have heq : way ++ t = way ++ way' ++ n :: block := by
        rw [ht]
        simp only [List.append_assoc]
      exact .waiting (hway.trans htravels) hbegins hblock heq

namespace ThrowLaw

variable {notes : List Note}

end ThrowLaw

/-- A thread throws a value that gets as far as what is open in the end. -/
def ThrownTo (notes : List Note) (e : Exception) (K' : List Construct) : Prop :=
  ∃ before m after K, notes = before ++ ⟨.threw e, m⟩ :: after ∧ nest [] before = some K ∧
    Travels e K after K'

/-- A value that has got so far gets further. -/
theorem ThrownTo.trans
    {t t' : List Note} {e : Exception} {K K' : List Construct} (hthrown : ThrownTo t e K)
    (htravels : Travels e K t' K') :
    ThrownTo (t ++ t') e K' := by
  obtain ⟨before, m, after, K₀, rfl, hnest, hway⟩ := hthrown
  exact ⟨before, m, after ++ t', K₀, by simp, hnest, hway.trans htravels⟩

/-- A thread throws a value that nobody takes. -/
def Uncaught (notes : List Note) (e : Exception) : Prop := ThrownTo notes e []

end ScriptEngine
