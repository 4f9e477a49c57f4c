import ScriptEngine.Proofs.Conduct.Session
import ScriptEngine.Proofs.Faults.Session
import ScriptEngine.Proofs.Nesting.Laws

/-!
# The limit of calls in sessions

A program with a single thread is run twice, with limits of which the second is no smaller.  As long
as the smaller limit refuses no call the runs go abreast, turn by turn; so they end alike, with the
same heap.  Where it refuses a call, the nesting exceeds it, however the calls before have ended.

`Session.runProgram_cutsOff` says so of every such program: the limit is a cut-off and nothing else.
-/

namespace ScriptEngine

open Event (deepest)

/-! ### The only thread -/

/-- Whether an evaluation waits. -/
def Res.isBlocked {α : Type} : Res α → Bool
  | blocked .. => true
  | _ => false

/-- From a moment of a run on the main thread is the only one. -/
def Solitary {α : Type} (limit : Nat) (r : Res α) (ws : List Waiting) : Prop :=
  ∀ r' ws', Eval.Reaches limit r ws r' ws' →
    ws' = [] ∧ ∀ h, r'.heap? = some h → h.jobs = []

/-- Later moments of later moments. -/
theorem Eval.Reaches.trans
    {α : Type} {limit : Nat} {r r' r'' : Res α} {ws ws' ws'' : List Waiting}
    (hreach : Reaches limit r ws r' ws') (hnext : Reaches limit r' ws' r'' ws'') :
    Reaches limit r ws r'' ws'' := by
  induction hnext with
  | refl =>
      exact hreach
  | turn _ hturn ih =>
      exact .turn (ih hreach) hturn

/-- Nothing follows an evaluation that does not wait. -/
theorem Eval.Reaches.eq_of_ended
    {α : Type} {limit : Nat} {r r' : Res α} {ws ws' : List Waiting}
    (hreach : Reaches limit r ws r' ws') (hended : r.isBlocked = false) :
    r' = r ∧ ws' = ws := by
  induction hreach with
  | refl =>
      exact ⟨rfl, rfl⟩
  | turn _ _ ih =>
      obtain ⟨rfl, -⟩ := ih
      cases hended

namespace Solitary

variable {α : Type} {limit : Nat} {r r' : Res α} {ws ws' : List Waiting} {b : Blocker} {h : Heap}
variable {resume : Heap → Res α}

theorem turn
    (halone : Solitary limit (.blocked b h resume) ws)
    (hturn : Eval.turn Eval.engine limit b h resume ws = some (r', ws')) :
    Solitary limit r' ws' := by
  exact fun r₂ ws₂ hreach => halone r₂ ws₂ (.trans (.turn .refl hturn) hreach)

/-- Where there is no other thread, a turn only sets the clock; the limit does not matter to it. -/
theorem turn_eq
    (limit : Nat) (hjobs : h.jobs = []) :
    Eval.turn Eval.engine limit b h resume [] = (Eval.advance? [b] h).map fun h' =>
      (if b.isReady h' then resume h' else .blocked b h' resume, []) := by
  unfold Eval.turn
  rw [List.map_nil]
  cases hclock : Eval.advance? [b] h with
  | none =>
      rfl
  | some h' =>
      obtain ⟨t, rfl⟩ := Steady.advance hclock
      simp [Eval.round, Eval.startJobs, Eval.resumeReady, hjobs]

/-- Who never waits and begins no threads is alone. -/
theorem of_ended
    (hended : r.isBlocked = false) (hjobs : (r.heap?.all (·.jobs.isEmpty)) = true) :
    Solitary limit r [] := by
  intro r' ws' hreach
  obtain ⟨rfl, rfl⟩ := hreach.eq_of_ended hended
  refine ⟨rfl, fun h hh => ?_⟩
  rw [hh] at hjobs
  exact List.isEmpty_iff.mp hjobs

/-- In a turn nobody else makes calls, so what has been noted of them stays noted. -/
theorem since
    {es : List Event}
    (halone : Solitary limit (.blocked b h resume) [])
    (hr : (Res.blocked b h resume).Since es)
    (hturn : Eval.turn Eval.engine limit b h resume [] = some (r', ws')) :
    r'.Since es := by
  obtain ⟨hnow, hlater⟩ := hr
  have hjobs := (halone _ _ .refl).2 h rfl
  rw [turn_eq limit hjobs] at hturn
  obtain ⟨h', hclock, hnext⟩ := Option.map_eq_some_iff.mp hturn
  obtain ⟨t, rfl⟩ := Steady.advance hclock
  cases hnext
  split
  · exact hlater _ hnow
  · exact ⟨hnow, hlater⟩

/-- What has been noted of calls stays noted to the end of a run. -/
theorem drive_since
    {es : List Event} {fuel : Nat} {o : Except Signal α}
    (halone : Solitary limit r []) (hr : r.Since es)
    (hrun : Eval.drive Eval.engine limit fuel r [] = some (o, ws', h)) :
    es <:+ h.history := by
  induction fuel generalizing r with
  | zero =>
      cases r <;> cases hrun <;> exact hr
  | succ fuel ih =>
      cases r with
      | value a h₁ =>
          cases hrun
          exact hr
      | raise s h₁ =>
          cases hrun
          exact hr
      | outOfFuel =>
          cases hrun
      | blocked b h₁ resume =>
          rw [Eval.drive] at hrun
          cases hturn : Eval.turn Eval.engine limit b h₁ resume [] with
          | none =>
              rw [hturn] at hrun
              cases hrun
          | some next =>
              obtain ⟨r₁, ws₁⟩ := next
              rw [hturn] at hrun
              have halone₁ := halone.turn hturn
              obtain ⟨rfl, -⟩ := halone₁ _ _ .refl
              exact ih halone₁ (halone.since hr hturn) hrun

end Solitary

/-! ### Two runs -/

/-- What has been noted of calls stays noted as far as an evaluation has come. -/
theorem Res.Since.heap
    {α : Type} {es : List Event} {r : Res α} {h : Heap}
    (hr : r.Since es) (hh : r.heap? = some h) :
    es <:+ h.history := by
  cases r with
  | value a h₁ =>
      cases hh
      exact hr
  | raise s h₁ =>
      cases hh
      exact hr
  | blocked b h₁ resume =>
      cases hh
      exact hr.1
  | outOfFuel =>
      cases hh

/-- How two runs with different limits end. -/
inductive Outcomes (past : List Event) (n : Nat) {α : Type} :
    Option (Except Signal α × List Waiting × Heap) →
    Option (Except Signal α × List Waiting × Heap) → Prop
  | endless : Outcomes past n none none
  | alike {o : Except Signal α} {h : Heap} :
      Within past n 0 h → Outcomes past n (some (o, [], h)) (some (o, [], h))
  /-- A call has tripped the smaller limit. -/
  | apart {x x' : Option (Except Signal α × List Waiting × Heap)} :
      (∀ o ws h, x = some (o, ws, h) → Refuses past n h.history) →
      (∀ o ws h, x' = some (o, ws, h) → Exceeds past n h.history) → Outcomes past n x x'

namespace Abreast

variable {α : Type} {past : List Event} {n m : Nat} {r r' : Res α}

/-- If two runs have gone apart, they end apart. -/
theorem drive_apart
    {es es' : List Event} (fuel : Nat)
    (hrefuses : Refuses past n es) (hr : r.Since es)
    (hexceeds : Exceeds past n es') (hr' : r'.Since es')
    (halone : Solitary n r []) (halone' : Solitary m r' []) :
    Outcomes past n (Eval.drive Eval.engine n fuel r []) (Eval.drive Eval.engine m fuel r' []) := by
  refine .apart (fun o ws h hrun => ?_) fun o ws h hrun => ?_
  · exact hrefuses.of_suffix (halone.drive_since hr hrun)
  · exact hexceeds.of_suffix (halone'.drive_since hr' hrun)

/-- One turn of each of two runs. -/
theorem turn
    {b : Blocker} {h : Heap} {resume resume' : Heap → Res α} {d : Nat}
    (hwithin : Within past n d h)
    (hresume : ∀ h', Within past n d h' → Abreast past n 0 (resume h') (resume' h'))
    (hjobs : h.jobs = []) :
    (Eval.turn Eval.engine n b h resume [] = none ∧
        Eval.turn Eval.engine m b h resume' [] = none) ∨
      ∃ r₁ r₁', Eval.turn Eval.engine n b h resume [] = some (r₁, []) ∧
        Eval.turn Eval.engine m b h resume' [] = some (r₁', []) ∧ Abreast past n 0 r₁ r₁' := by
  rw [Solitary.turn_eq n hjobs, Solitary.turn_eq m hjobs]
  cases hclock : Eval.advance? [b] h with
  | none =>
      exact .inl ⟨rfl, rfl⟩
  | some h' =>
      obtain ⟨t, rfl⟩ := Steady.advance hclock
      have hwithin' : Within past n d { h with clock := t } := hwithin
      refine .inr ⟨_, _, rfl, rfl, ?_⟩
      split
      · exact hresume _ hwithin'
      · exact .blocked hwithin' hresume

/-- Two runs that are abreast end alike, or the smaller limit has refused a call. -/
theorem drive
    (fuel : Nat)
    (hr : Abreast past n 0 r r')
    (halone : Solitary n r []) (halone' : Solitary m r' []) :
    Outcomes past n (Eval.drive Eval.engine n fuel r []) (Eval.drive Eval.engine m fuel r' []) := by
  induction fuel generalizing r r' with
  | zero =>
      cases hr with
      | value hwithin =>
          exact .alike hwithin
      | raise hwithin =>
          exact .alike hwithin
      | blocked =>
          exact .endless
      | outOfFuel =>
          exact .endless
      | apart hrefuses hr hexceeds hr' =>
          exact drive_apart 0 hrefuses hr hexceeds hr' halone halone'
  | succ fuel ih =>
      cases hr with
      | value hwithin =>
          exact .alike hwithin
      | raise hwithin =>
          exact .alike hwithin
      | outOfFuel =>
          exact .endless
      | apart hrefuses hr hexceeds hr' =>
          exact drive_apart (fuel + 1) hrefuses hr hexceeds hr' halone halone'
      | @blocked b h resume resume' d hwithin hresume =>
          have hjobs := (halone _ _ .refl).2 h rfl
          rw [Eval.drive, Eval.drive]
          rcases turn (b := b) (m := m) hwithin hresume hjobs with
            ⟨hnone, hnone'⟩ | ⟨r₁, r₁', hturn, hturn', hr₁⟩
          · rw [hnone, hnone']
            exact .endless
          · rw [hturn, hturn']
            exact ih hr₁ (halone.turn hturn) (halone'.turn hturn')

/-- What is abreast with itself is so at every later moment. -/
theorem reaches
    {r₁ : Res α} {ws ws₁ : List Waiting}
    (hr : Abreast past n 0 r r) (halone : Solitary n r ws)
    (hreach : Eval.Reaches n r ws r₁ ws₁) :
    Abreast past n 0 r₁ r₁ := by
  induction hreach with
  | refl =>
      exact hr
  | @turn _ _ ws₁ _ b h resume hbefore hturn ih =>
      obtain ⟨rfl, hjobs⟩ := halone _ _ hbefore
      have halone₁ : Solitary n (.blocked b h resume) [] :=
        fun r' ws' hreach' => halone r' ws' (hbefore.trans hreach')
      cases ih halone with
      | blocked hwithin hresume =>
          rcases turn (b := b) (m := n) hwithin hresume (hjobs h rfl) with
            ⟨hnone, -⟩ | ⟨r₃, r₃', hturn₃, hturn₃', hr₃⟩
          · rw [hnone] at hturn
            cases hturn
          · rw [hturn] at hturn₃ hturn₃'
            cases hturn₃
            cases hturn₃'
            exact hr₃
      | apart hrefuses hr hexceeds hr' =>
          exact .apart hrefuses (halone₁.since hr hturn) hexceeds (halone₁.since hr' hturn)

/-- Where a call has tripped the limit, and only there, the nesting has exceeded it. -/
theorem tells
    {h : Heap}
    (hr : Abreast past n 0 r r) (hh : r.heap? = some h) :
    ∃ events, h.history = events ++ past ∧ (Trips n events ↔ n < deepest events) := by
  have hcases : (∃ d, Within past n d h) ∨ Refuses past n h.history := by
    cases hr with
    | value hwithin =>
        cases hh
        exact .inl ⟨_, hwithin⟩
    | raise hwithin =>
        cases hh
        exact .inl ⟨_, hwithin⟩
    | blocked hwithin _ =>
        cases hh
        exact .inl ⟨_, hwithin⟩
    | outOfFuel =>
        cases hh
    | apart hrefuses hr _ _ =>
        exact .inr (hrefuses.of_suffix (hr.heap hh))
  rcases hcases with ⟨d, events, hpast, -, hdeepest, hnone⟩ | ⟨events, hpast, htrips, hdeepest⟩
  · exact ⟨events, hpast, fun htrips => absurd htrips (Within.not_trips hnone),
      fun hlt => absurd hdeepest (Nat.not_le.mpr hlt)⟩
  · exact ⟨events, hpast, fun _ => hdeepest, fun _ => htrips⟩

end Abreast

/-! ### Programs -/

namespace Session

/-- The same session with another limit of calls. -/
def withLimit (s : Session) (n : Nat) : Session := { s with limit := n }

/-- A program that the main thread of a session runs alone. -/
def SingleThreaded (s : Session) (p : Program) : Prop :=
  Solitary s.limit (runIn s.env p.statements (.ofLimit s.limit) s.heap) s.waiting

/-- A program ends, and this is what it ends with, what it leaves and what befell it. -/
structure Ends (s : Session) (p : Program) (result : Except Failure Value) (s' : Session)
    (events : List Event) : Prop where
  run : s.runProgram p = (result, s')
  ended : result ≠ .error .endless
  history : s'.heap.history = events ++ s.heap.history

/-- The smaller one of two limits of calls is a cut-off and nothing else. -/
structure CutsOff (s : Session) (p : Program) (n m : Nat) : Prop where
  /-- At every moment a call has tripped the limit just if the nesting has exceeded it. -/
  trips : ∀ r ws h,
    Eval.Reaches n (runIn s.env p.statements (.ofLimit n) s.heap) s.waiting r ws →
    r.heap? = some h →
    ∃ events, h.history = events ++ s.heap.history ∧ (Trips n events ↔ n < deepest events)
  /-- A run that does not trip the limit is the run with the greater one. -/
  agrees : ∀ result s' events, (s.withLimit n).Ends p result s' events → ¬Trips n events →
    (s.withLimit m).Ends p result (s'.withLimit m) events
  /-- There is such a run just if the nesting of the run with the greater limit is within the
  smaller one. -/
  spares : ∀ result s' events, (s.withLimit m).Ends p result s' events →
    ((∃ result' s'' events', (s.withLimit n).Ends p result' s'' events' ∧ ¬Trips n events') ↔
      deepest events ≤ n)
  /-- What is noted is what is done: whatever the limit, a call is refused with a fault, or its body is
  run, and no other code enters a frame. -/
  inOrder : ∀ k, (s.withLimit k).KeepsOrder p

/-- A program whose main thread is driven to its end ends with what that comes to. -/
theorem runProgram_of_drive
    {s : Session} {p : Program} {outcome : Except Signal Value} {ws : List Waiting} {h : Heap}
    (hdrive : Eval.drive Eval.engine s.limit Eval.fullFuel
      (runIn s.env p.statements (.ofLimit s.limit) s.heap) s.waiting = some (outcome, ws, h)) :
    s.runProgram p = (outcome.mapError (.ofSignal h), { s with heap := h, waiting := ws }) := by
  -- the engine is put away first: what it computes is not to be unfolded
  unfold Session.runProgram
  dsimp only
  generalize runIn s.env p.statements (.ofLimit s.limit) s.heap = first at hdrive ⊢
  generalize Eval.fullFuel = fuel at hdrive ⊢
  rw [hdrive]
  cases outcome with
  | ok v =>
      rfl
  | error signal =>
      rfl

/-- A program ends just if its main thread is driven to its end. -/
theorem ends_iff
    {s : Session} {p : Program} {result : Except Failure Value} {s' : Session}
    {events : List Event} :
    s.Ends p result s' events ↔ ∃ outcome ws h,
      Eval.drive Eval.engine s.limit Eval.fullFuel
        (runIn s.env p.statements (.ofLimit s.limit) s.heap) s.waiting = some (outcome, ws, h) ∧
      result = outcome.mapError (.ofSignal h) ∧ s' = { s with heap := h, waiting := ws } ∧
      h.history = events ++ s.heap.history := by
  constructor
  · rintro ⟨hrun, hended, hpast⟩
    rcases s.runProgram_cases p with hendless | ⟨outcome, ws, h, hdrive, hresult⟩
    · rw [hrun] at hendless
      cases hendless
      exact absurd rfl hended
    · rw [hrun] at hresult
      cases hresult
      exact ⟨outcome, ws, h, hdrive, rfl, rfl, hpast⟩
  · rintro ⟨outcome, ws, h, hdrive, rfl, rfl, hpast⟩
    refine ⟨runProgram_of_drive hdrive, fun heq => ?_, hpast⟩
    cases outcome with
    | ok v =>
        cases heq
    | error signal =>
        cases signal <;> cases heq

/-- A program ends in one way only. -/
theorem Ends.events_eq
    {s s₁ s₂ : Session} {p : Program} {result₁ result₂ : Except Failure Value}
    {events₁ events₂ : List Event}
    (h₁ : s.Ends p result₁ s₁ events₁) (h₂ : s.Ends p result₂ s₂ events₂) :
    events₁ = events₂ := by
  have hrun := h₁.run.symm.trans h₂.run
  cases hrun
  exact List.append_cancel_right (h₁.history.symm.trans h₂.history)

section Limits

variable {s : Session} {p : Program} {n m : Nat}

/-- How two runs of a program end of which the main thread is the only one. -/
theorem outcomes
    (hle : n ≤ m)
    (halone : (s.withLimit n).SingleThreaded p) (halone' : (s.withLimit m).SingleThreaded p) :
    Outcomes s.heap.history n
      (Eval.drive Eval.engine n Eval.fullFuel
        (runIn s.env p.statements (.ofLimit n) s.heap) s.waiting)
      (Eval.drive Eval.engine m Eval.fullFuel
        (runIn s.env p.statements (.ofLimit m) s.heap) s.waiting) := by
  have hnobody : s.waiting = [] := (halone _ _ .refl).1
  have hrun : Abreast s.heap.history n 0 (runIn s.env p.statements (.ofLimit n) s.heap)
      (runIn s.env p.statements (.ofLimit m) s.heap) :=
    (capped_composed (.runIn s.env p.statements)).abreast hle (.start n s.heap)
  unfold SingleThreaded withLimit at halone halone'
  rw [hnobody] at halone halone' ⊢
  exact hrun.drive _ halone halone'

/-- A run that does not trip the limit is the run with the greater one, and the nesting is within the
smaller one. -/
theorem ends_of_not_trips
    {result : Except Failure Value} {s' : Session} {events : List Event}
    (hle : n ≤ m)
    (halone : (s.withLimit n).SingleThreaded p) (halone' : (s.withLimit m).SingleThreaded p)
    (hends : (s.withLimit n).Ends p result s' events) (hnone : ¬Trips n events) :
    (s.withLimit m).Ends p result (s'.withLimit m) events ∧ deepest events ≤ n := by
  obtain ⟨outcome, ws, h, hdrive, rfl, rfl, hpast⟩ := ends_iff.mp hends
  unfold withLimit at hdrive hpast
  have houtcomes := outcomes hle halone halone'
  generalize hdrive' : Eval.drive Eval.engine m Eval.fullFuel
    (runIn s.env p.statements (.ofLimit m) s.heap) s.waiting = x' at houtcomes
  rw [hdrive] at houtcomes
  cases houtcomes with
  | alike hwithin =>
      obtain ⟨events', hpast', -, hdeepest, -⟩ := hwithin
      cases List.append_cancel_right (hpast.symm.trans hpast')
      exact ⟨ends_iff.mpr ⟨outcome, [], h, hdrive', rfl, rfl, hpast⟩, hdeepest⟩
  | apart hrefuses _ =>
      obtain ⟨events', hpast', hmem, -⟩ := hrefuses _ _ _ rfl
      cases List.append_cancel_right (hpast.symm.trans hpast')
      exact absurd hmem hnone

/-- A run with a nesting within a smaller limit is the run with that one, which no call trips. -/
theorem ends_of_within
    {result : Except Failure Value} {s' : Session} {events : List Event}
    (hle : n ≤ m)
    (halone : (s.withLimit n).SingleThreaded p) (halone' : (s.withLimit m).SingleThreaded p)
    (hends : (s.withLimit m).Ends p result s' events) (hdeepest : deepest events ≤ n) :
    (s.withLimit n).Ends p result (s'.withLimit n) events ∧ ¬Trips n events := by
  obtain ⟨outcome, ws, h, hdrive', rfl, rfl, hpast⟩ := ends_iff.mp hends
  unfold withLimit at hdrive' hpast
  have houtcomes := outcomes hle halone halone'
  generalize hdrive : Eval.drive Eval.engine n Eval.fullFuel
    (runIn s.env p.statements (.ofLimit n) s.heap) s.waiting = x at houtcomes
  rw [hdrive'] at houtcomes
  cases houtcomes with
  | alike hwithin =>
      obtain ⟨events', hpast', -, -, hnone⟩ := hwithin
      cases List.append_cancel_right (hpast.symm.trans hpast')
      exact ⟨ends_iff.mpr ⟨outcome, [], h, hdrive, rfl, rfl, hpast⟩, Within.not_trips hnone⟩
  | apart _ hexceeds =>
      obtain ⟨events', hpast', hlt⟩ := hexceeds _ _ _ rfl
      cases List.append_cancel_right (hpast.symm.trans hpast')
      exact absurd hdeepest (Nat.not_le.mpr hlt)

end Limits

/-- For a program with a single thread, the smaller one of two limits of calls is a cut-off and
nothing else: the program runs as with the greater one until a call is nested deeper. -/
theorem runProgram_cutsOff
    (s : Session) (p : Program) {n m : Nat}
    (hle : n ≤ m)
    (halone : (s.withLimit n).SingleThreaded p) (halone' : (s.withLimit m).SingleThreaded p) :
    s.CutsOff p n m where
  trips r ws h hreach hh := by
    have hcapped : Capped (runIn s.env p.statements) := capped_composed (.runIn _ _)
    have hself : Abreast s.heap.history n 0 (runIn s.env p.statements (.ofLimit n) s.heap)
        (runIn s.env p.statements (.ofLimit n) s.heap) :=
      hcapped.abreast (Nat.le_refl n) (.start n s.heap)
    exact (hself.reaches halone hreach).tells hh
  agrees result s' events hends hnone :=
    (ends_of_not_trips hle halone halone' hends hnone).1
  spares result s' events hends := by
    constructor
    · rintro ⟨result', s'', events', hends', hnone⟩
      obtain ⟨hends'', hdeepest⟩ := ends_of_not_trips hle halone halone' hends' hnone
      rwa [hends.events_eq hends'']
    · intro hdeepest
      exact ⟨_, _, _, ends_of_within hle halone halone' hends hdeepest⟩
  inOrder k := (s.withLimit k).keepsOrder p

/-- A call that ends, one that throws, and a call of a function that makes a call. -/
def callsInCalls : Program :=
  let s : Span := default
  let call (body : LambdaBody Expr Stmt) : Expr := .call (.lambda [] none body s) [] [] s
  ⟨[.expression (call (.expr (.int 1 s))) s,
    .attempt [.expression (call (.block [.throw (.int 2 s) s])) s] [⟨some "e", none, [], s⟩] none s,
    .expression (call (.expr (call (.expr (.int 5 s))))) s], s⟩

/-- A limit of one call refuses the innermost call only; with a limit of two there is a value. -/
theorem callsInCalls_cutsOff :
    ((bare 0).withLimit 1).SingleThreaded callsInCalls ∧
      ((bare 0).withLimit 2).SingleThreaded callsInCalls ∧
      (bare 0).CutsOff callsInCalls 1 2 ∧
      (((bare 0).withLimit 1).runProgram callsInCalls).1.toOption.isSome = false ∧
      (((bare 0).withLimit 2).runProgram callsInCalls).1.toOption.isSome := by
  have halone : ((bare 0).withLimit 1).SingleThreaded callsInCalls :=
    .of_ended (by decide +kernel) (by decide +kernel)
  have halone' : ((bare 0).withLimit 2).SingleThreaded callsInCalls :=
    .of_ended (by decide +kernel) (by decide +kernel)
  have hcuts := runProgram_cutsOff (bare 0) callsInCalls (Nat.le_succ 1) halone halone'
  exact ⟨halone, halone', hcuts, by decide +kernel, by decide +kernel⟩

end Session

end ScriptEngine
