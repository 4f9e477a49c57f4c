import ScriptEngine.Heap.Basic

/-!
# Histories of frames

A frame is entered, its code defers calls, its body stops, the deferred calls run, and the frame is
left.  This module says when a history of events tells of frames that behave so, and proves what
such a history looks like.

**Stages.** At any time a frame is idle, in its body, or on its exit.  `Move f s e s'` lists the
events that a frame can take part in, with its status before and after.

**Callers.** A frame that has made a call waits for the callee: until the callee is left, nothing
else can befall it.

**The law.** `DeferLaw` speaks of events only.  The events of a frame are complete visits one after
another and then a part of one; every call that is deferred belongs to a frame; and while a callee
has not been left, its caller does nothing.
-/

namespace ScriptEngine

/-! ### The law -/

namespace Event

/-- Whether an event is one of a frame's own. -/
def isOf (f : ScopeId) : Event → Bool
  | entered g _ => g == f
  | deferred g _ => g == some f
  | stopped g => g == f
  | ran g _ => g == f
  | left g _ => g == f
  | _ => false

/-- Whether a frame takes part in an event.  In what no frame has deferred, every frame does. -/
def Concerns (f : ScopeId) : Event → Prop
  | entered g caller => g = f ∨ caller = some f
  | deferred g _ => g = some f ∨ g = none
  | stopped g => g = f
  | ran g _ => g = f
  | left g caller => g = f ∨ caller = some f
  | _ => False

theorem not_isOf
    {f : ScopeId} {e : Event}
    (h : ¬e.Concerns f) :
    e.isOf f = false := by
  cases e <;> simp_all [isOf, Concerns]

end Event

/-- A stay in a frame: who made the call, and what was deferred in the body. -/
structure Visit where
  caller : Option ScopeId
  defers : List Deferred

/-- The events of a visit.  The deferred calls run when the body has stopped and before the frame
is left, the last deferred first. -/
def Visit.events (f : ScopeId) (v : Visit) : List Event :=
  .entered f v.caller :: v.defers.map (.deferred (some f)) ++
    .stopped f :: v.defers.reverse.map (.ran f) ++ [.left f v.caller]

/-- The events of several visits. -/
def Visit.all (f : ScopeId) (vs : List Visit) : List Event := vs.flatMap (Visit.events f)

/-- What a history tells of deferred calls, the oldest event first. -/
structure DeferLaw (events : List Event) : Prop where
  /-- A frame is visited again and again; the last visit may be under way. -/
  visits : ∀ f, ∃ vs v underway, underway <+: Visit.events f v ∧
    events.filter (·.isOf f) = Visit.all f vs ++ underway
  /-- Every deferred call belongs to a frame. -/
  owned : ∀ d, .deferred none d ∉ events
  /-- As long as a callee has not been left, nothing befalls its caller. -/
  waits : ∀ f g before during after,
    events = before ++ .entered g (some f) :: (during ++ after) →
    (∀ c, .left g c ∉ during) → ∀ e ∈ during, e.isOf f = false

/-! ### The stages of a frame -/

/-- How far a visit has come. -/
inductive Stage
  | idle
  | body (caller : Option ScopeId) (defers : List Deferred)
  | exit (caller : Option ScopeId) (todo : List Deferred)

/-- The calls that are deferred but not on their way. -/
def Stage.pending : Stage → List Deferred
  | .body _ defers => defers
  | _ => []

/-- The stage of a frame and the frame that it waits for. -/
structure Status where
  stage : Stage
  callee : Option ScopeId

namespace Status

/-- The status of a frame without a visit. -/
def idle : Status := ⟨.idle, none⟩

/-- Whether the code of a frame runs. -/
def Runs (s : Status) : Prop := s.stage ≠ .idle ∧ s.callee = none

/-- The status of a frame that has made a call. -/
def calling (s : Status) (g : ScopeId) : Status := { s with callee := some g }

end Status

/-- What an event makes of the status of a frame. -/
inductive Move (f : ScopeId) : Status → Event → Status → Prop
  | enter {caller : Option ScopeId} :
      caller ≠ some f → Move f .idle (.entered f caller) ⟨.body caller [], none⟩
  | defer {caller : Option ScopeId} {ds : List Deferred} {d : Deferred} :
      Move f ⟨.body caller ds, none⟩ (.deferred (some f) d) ⟨.body caller (ds ++ [d]), none⟩
  | stop {caller : Option ScopeId} {ds : List Deferred} :
      Move f ⟨.body caller ds, none⟩ (.stopped f) ⟨.exit caller ds.reverse, none⟩
  | run {caller : Option ScopeId} {d : Deferred} {todo : List Deferred} :
      Move f ⟨.exit caller (d :: todo), none⟩ (.ran f d) ⟨.exit caller todo, none⟩
  | leave {caller : Option ScopeId} :
      caller ≠ some f → Move f ⟨.exit caller [], none⟩ (.left f caller) .idle
  | call {s : Status} {g : ScopeId} :
      g ≠ f → s.Runs → Move f s (.entered g (some f)) (s.calling g)
  | back {s : Status} {g : ScopeId} :
      g ≠ f → s.Runs → Move f (s.calling g) (.left g (some f)) s
  | other {s : Status} {e : Event} :
      ¬e.Concerns f → Move f s e s

/-- The status of a frame after a history, the newest event first. -/
inductive After (f : ScopeId) : List Event → Status → Prop
  | start : After f [] .idle
  | move {events : List Event} {s s' : Status} {e : Event} :
      After f events s → Move f s e s' → After f (e :: events) s'

namespace After

variable {f g : ScopeId} {events : List Event} {s : Status}

/-- The events of a visit that has come to a stage. -/
def Underway (f : ScopeId) : Stage → List Event → Prop
  | .idle, es => es = []
  | .body caller ds, es => es = .entered f caller :: ds.map (.deferred (some f))
  | .exit caller todo, es => ∃ done : List Deferred,
      es = .entered f caller :: (done ++ todo).reverse.map (.deferred (some f)) ++
        .stopped f :: done.map (.ran f)

/-- One event more in a visit that is under way. -/
theorem Underway.move
    {s s' : Status} {e : Event} {es : List Event}
    (h : Underway f s.stage es) (hm : Move f s e s') :
    (e.isOf f = false ∧ Underway f s'.stage es) ∨
      (e.isOf f = true ∧ Underway f s'.stage (es ++ [e])) ∨
      (e.isOf f = true ∧ s'.stage = .idle ∧ ∃ v, es ++ [e] = Visit.events f v) := by
  cases hm with
  | enter hne =>
      refine .inr (.inl ⟨by simp [Event.isOf], ?_⟩)
      rw [show es = [] from h]
      rfl
  | defer =>
      refine .inr (.inl ⟨by simp [Event.isOf], ?_⟩)
      rw [show es = _ from h]
      simp [Underway]
  | stop =>
      refine .inr (.inl ⟨by simp [Event.isOf], [], ?_⟩)
      rw [show es = _ from h]
      simp
  | @run caller d todo =>
      obtain ⟨done, hes⟩ := h
      refine .inr (.inl ⟨by simp [Event.isOf], done ++ [d], ?_⟩)
      rw [hes]
      simp
  | @leave caller hne =>
      obtain ⟨done, hes⟩ := h
      refine .inr (.inr ⟨by simp [Event.isOf], rfl, ⟨caller, done.reverse⟩, ?_⟩)
      rw [hes]
      simp [Visit.events]
  | call hne hruns =>
      exact .inl ⟨by simp [Event.isOf, hne], h⟩
  | back hne hruns =>
      exact .inl ⟨by simp [Event.isOf, hne], h⟩
  | other hc =>
      exact .inl ⟨Event.not_isOf hc, h⟩

/-- The events of a frame are complete visits and then those of the visit under way. -/
theorem visits
    (h : After f events s) :
    ∃ vs es, Underway f s.stage es ∧
      events.reverse.filter (·.isOf f) = Visit.all f vs ++ es := by
  induction h with
  | start =>
      exact ⟨[], [], rfl, rfl⟩
  | @move events s s' e h hm ih =>
      obtain ⟨vs, es, hes, hfilter⟩ := ih
      rcases hes.move hm with ⟨hof, hes'⟩ | ⟨hof, hes'⟩ | ⟨hof, hidle, v, hv⟩
      · exact ⟨vs, es, hes', by simp [List.filter_append, hfilter, hof]⟩
      · exact ⟨vs, es ++ [e], hes', by simp [List.filter_append, hfilter, hof]⟩
      · refine ⟨vs ++ [v], [], by rw [hidle]; rfl, ?_⟩
        simp only [List.reverse_cons, List.filter_append, hfilter, List.append_assoc]
        simp [Visit.all, hof, ← hv]

/-- What is under way is the beginning of a visit. -/
theorem Underway.prefix_events
    {stage : Stage} {es : List Event}
    (h : Underway f stage es) :
    ∃ v, es <+: Visit.events f v := by
  cases stage with
  | idle =>
      rw [show es = [] from h]
      exact ⟨⟨none, []⟩, List.nil_prefix⟩
  | body caller ds =>
      refine ⟨⟨caller, ds⟩, ?_⟩
      rw [show es = _ from h]
      simp [Visit.events]
  | exit caller todo =>
      obtain ⟨done, hes⟩ := h
      refine ⟨⟨caller, (done ++ todo).reverse⟩, todo.map (.ran f) ++ [.left f caller], ?_⟩
      rw [hes]
      simp [Visit.events]

/-- An idle frame has only complete visits behind it. -/
theorem complete
    (h : After f events .idle) :
    ∃ vs, events.reverse.filter (·.isOf f) = Visit.all f vs := by
  obtain ⟨vs, es, hes, hfilter⟩ := h.visits
  rw [show es = [] from hes] at hfilter
  exact ⟨vs, by simpa using hfilter⟩

/-- In a history that tells of a frame, every deferred call belongs to one. -/
theorem owned
    (h : After f events s) (d : Deferred) :
    .deferred none d ∉ events := by
  induction h with
  | start =>
      simp
  | move h hm ih =>
      simp only [List.mem_cons, not_or]
      refine ⟨?_, ih⟩
      rintro rfl
      cases hm with
      | other hc =>
          simp [Event.Concerns] at hc

/-- A history tells of a frame also where it stops earlier. -/
theorem earlier
    {later : List Event}
    (h : After f (later ++ events) s) :
    ∃ s', After f events s' := by
  induction later generalizing s with
  | nil =>
      exact ⟨s, h⟩
  | cons e later ih =>
      cases h with
      | move h hm =>
          exact ih h

/-- A frame that has made a call waits until the callee is left. -/
theorem waiting
    {during before : List Event}
    (h : After f (during ++ .entered g (some f) :: before) s)
    (hleft : ∀ c, .left g c ∉ during) :
    s.callee = some g ∧ ∀ e ∈ during, e.isOf f = false := by
  induction during generalizing s with
  | nil =>
      cases h with
      | move h hm =>
          cases hm with
          | enter hne =>
              exact absurd rfl hne
          | call hne hruns =>
              exact ⟨rfl, by simp⟩
          | other hc =>
              simp [Event.Concerns] at hc
  | cons e during ih =>
      cases h with
      | @move _ s₀ _ _ h hm =>
          have hleft' : ∀ c, .left g c ∉ during := fun c hc =>
            hleft c (List.mem_cons_of_mem _ hc)
          obtain ⟨hcallee, hquiet⟩ := ih h hleft'
          cases hm with
          | back hne hruns =>
              cases hcallee
              exact absurd List.mem_cons_self (hleft _)
          | other hc =>
              refine ⟨hcallee, fun e' he' => ?_⟩
              rcases List.mem_cons.mp he' with rfl | he'
              · exact Event.not_isOf hc
              · exact hquiet e' he'
          | call hne hruns =>
              rw [hruns.2] at hcallee
              cases hcallee
          | enter | defer | stop | run | leave =>
              cases hcallee

end After

/-- A history that tells of every frame obeys the law. -/
theorem DeferLaw.of_after
    {events : List Event}
    (h : ∀ f, ∃ s, After f events s) :
    DeferLaw events.reverse where
  visits f := by
    obtain ⟨s, hs⟩ := h f
    obtain ⟨vs, es, hes, hfilter⟩ := hs.visits
    obtain ⟨v, hv⟩ := hes.prefix_events
    exact ⟨vs, v, es, hv, hfilter⟩
  owned d := by
    obtain ⟨s, hs⟩ := h 0
    rw [List.mem_reverse]
    exact hs.owned d
  waits f g before during after heq hleft e he := by
    obtain ⟨s, hs⟩ := h f
    have hevents : events =
        after.reverse ++ (during.reverse ++ .entered g (some f) :: before.reverse) := by
      rw [← List.reverse_reverse events, heq]
      simp
    rw [hevents] at hs
    obtain ⟨s', hs'⟩ := hs.earlier
    refine (hs'.waiting fun c => ?_).2 e (List.mem_reverse.mpr he)
    rw [List.mem_reverse]
    exact hleft c

end ScriptEngine
