import ScriptEngine.Proofs.Evaluation.Language

/-!
# The nesting of calls

Every call of declared code is noted when it begins and when it ends, whatever its outcome.  So it
can be told how many calls are under way, and how many were under way at the deepest moment.

**Abreast.** The limit of calls matters nowhere but where a call begins.  Two runs of a computation
from the same heap, with different limits, therefore do the same until the call comes that the smaller
limit does not allow: they are `Abreast`.  As long as they are, exactly as many calls are under way as
the depth in the context says, and none was nested deeper than the smaller limit.

**Apart.** Such a call trips the limit: nothing of it is run, and it ends with a fault.  The nesting
exceeds the smaller limit in both runs, and what has been noted by then stays noted, whatever either
run does next.

`Capped` says so of a computation.  Each operation of `Composed` is capped, so is whatever the
engine runs.
-/

namespace ScriptEngine

namespace Event

/-- How many calls are under way after a history, the newest event first. -/
def underWay : List Event → Nat
  | [] => 0
  | .called .. :: before => underWay before + 1
  | .answered .. :: before => underWay before - 1
  | _ :: before => underWay before

/-- How many calls were under way at the deepest moment, one that was refused included. -/
def deepest : List Event → Nat
  | [] => 0
  | e :: before => max (underWay (e :: before)) (deepest before)

/-- Whether an event befalls a call. -/
def isOfCall : Event → Bool
  | called .. | refused .. | answered .. => true
  | _ => false

theorem underWay_cons
    {e : Event} (he : e.isOfCall = false) (before : List Event) :
    underWay (e :: before) = underWay before := by
  cases e with
  | called | refused | answered =>
      cases he
  | _ =>
      rfl

theorem underWay_le_deepest
    (events : List Event) :
    underWay events ≤ deepest events := by
  cases events with
  | nil =>
      exact Nat.le_refl 0
  | cons e before =>
      exact Nat.le_max_left _ _

theorem deepest_cons
    {e : Event} (he : e.isOfCall = false) (before : List Event) :
    deepest (e :: before) = deepest before := by
  rw [deepest, underWay_cons he]
  exact Nat.max_eq_right (underWay_le_deepest before)

theorem deepest_le_append
    (new events : List Event) :
    deepest events ≤ deepest (new ++ events) := by
  induction new with
  | nil =>
      exact Nat.le_refl _
  | cons e new ih =>
      exact Nat.le_trans ih (Nat.le_max_right _ _)

/-- What a call is refused with. -/
def overLimit (n : Nat) : Signal := .fault (.ofCause (.callDepth n))

/-- What befalls a call that a limit refuses, the newest event first: nothing but a fault. -/
def ofTripped (i : Invocation) (args : List Value) (n : Nat) : List Event :=
  [.answered i (.error (overLimit n)), .faulted (.callDepth n), .refused n, .called i args]

end Event

/-- In a history, the newest event first, some call has tripped a limit. -/
def Trips (n : Nat) (events : List Event) : Prop :=
  ∃ i args, Event.ofTripped i args n <:+: events

open Event (underWay deepest)

/-- Since a past no call was refused, none was nested deeper than a limit, and so many are under
way. -/
def Within (past : List Event) (n d : Nat) (h : Heap) : Prop :=
  ∃ events, h.history = events ++ past ∧ underWay events = d ∧ deepest events ≤ n ∧
    ∀ k, .refused k ∉ events

/-- Since a past a call was nested deeper than a limit. -/
def Exceeds (past : List Event) (n : Nat) (history : List Event) : Prop :=
  ∃ events, history = events ++ past ∧ n < deepest events

/-- Since a past a call has tripped a limit, and indeed one was nested deeper. -/
def Refuses (past : List Event) (n : Nat) (history : List Event) : Prop :=
  ∃ events, history = events ++ past ∧ Trips n events ∧ n < deepest events

section Marks

variable {past history history' : List Event} {n d : Nat} {h h' : Heap}

theorem Within.start
    (n : Nat) (h : Heap) :
    Within h.history n 0 h := by
  exact ⟨[], rfl, rfl, Nat.zero_le n, fun _ => List.not_mem_nil⟩

/-- A change of which nothing is noted. -/
theorem Within.quiet
    (hwithin : Within past n d h) (hhistory : h'.history = h.history) :
    Within past n d h' := by
  unfold Within
  rw [hhistory]
  exact hwithin

/-- An event that befalls no call. -/
theorem Within.told
    {e : Event}
    (hwithin : Within past n d h) (he : e.isOfCall = false) :
    Within past n d (h.note e) := by
  obtain ⟨events, hhistory, hunder, hdeepest, hnone⟩ := hwithin
  refine ⟨e :: events, ?_, ?_, ?_, fun k hk => ?_⟩
  · rw [Heap.history_note, hhistory, List.cons_append]
  · rw [Event.underWay_cons he, hunder]
  · rwa [Event.deepest_cons he]
  · rcases List.mem_cons.mp hk with rfl | hk
    · cases he
    · exact hnone k hk

/-- One more call begins, within the limit. -/
theorem Within.called
    (hwithin : Within past n d h) (i : Invocation) (args : List Value) (hle : d + 1 ≤ n) :
    Within past n (d + 1) (h.note (.called i args)) := by
  obtain ⟨events, hhistory, hunder, hdeepest, hnone⟩ := hwithin
  refine ⟨.called i args :: events, ?_, ?_, ?_, fun k hk => ?_⟩
  · rw [Heap.history_note, hhistory, List.cons_append]
  · rw [underWay, hunder]
  · rw [deepest, underWay, hunder]
    exact Nat.max_le.mpr ⟨hle, hdeepest⟩
  · rcases List.mem_cons.mp hk with hk | hk
    · cases hk
    · exact hnone k hk

/-- The last call that began ends. -/
theorem Within.answered
    (hwithin : Within past n (d + 1) h) (i : Invocation) (outcome : Except Signal Value) :
    Within past n d (h.note (.answered i outcome)) := by
  obtain ⟨events, hhistory, hunder, hdeepest, hnone⟩ := hwithin
  refine ⟨.answered i outcome :: events, ?_, ?_, ?_, fun k hk => ?_⟩
  · rw [Heap.history_note, hhistory, List.cons_append]
  · rw [underWay, hunder, Nat.add_sub_cancel]
  · rw [deepest, underWay]
    have hle := Event.underWay_le_deepest events
    exact Nat.max_le.mpr ⟨by omega, hdeepest⟩
  · rcases List.mem_cons.mp hk with hk | hk
    · cases hk
    · exact hnone k hk

/-- One more call begins than the limit allows. -/
theorem Within.exceeds
    (hwithin : Within past n d h) (i : Invocation) (args : List Value) (hlt : n < d + 1) :
    Exceeds past n (.called i args :: h.history) := by
  obtain ⟨events, hhistory, hunder, -, -⟩ := hwithin
  refine ⟨.called i args :: events, congrArg (Event.called i args :: ·) hhistory, ?_⟩
  rw [deepest, underWay, hunder]
  exact Nat.lt_of_lt_of_le hlt (Nat.le_max_left _ _)

/-- Such a call trips the limit. -/
theorem Within.refuses
    (hwithin : Within past n d h) (i : Invocation) (args : List Value) (hlt : n < d + 1) :
    Refuses past n (Event.ofTripped i args n ++ h.history) := by
  obtain ⟨events, hhistory, hdeepest⟩ := hwithin.exceeds i args hlt
  obtain ⟨before, rfl, hpast⟩ : ∃ before, events = .called i args :: before ∧
      h.history = before ++ past := by
    cases events with
    | nil =>
        exact absurd hdeepest (Nat.not_lt_zero n)
    | cons e before =>
        obtain ⟨rfl, hpast⟩ := List.cons.inj hhistory
        exact ⟨before, rfl, hpast⟩
  refine ⟨Event.ofTripped i args n ++ before, ?_, ⟨i, args, [], before, rfl⟩, ?_⟩
  · rw [hpast, List.append_assoc]
  · exact Nat.lt_of_lt_of_le hdeepest (Event.deepest_le_append
      [.answered i (.error (Event.overLimit n)), .faulted (.callDepth n), .refused n] _)

/-- Where no call was refused, none has tripped the limit. -/
theorem Within.not_trips
    {events : List Event} (hnone : ∀ k, .refused k ∉ events) :
    ¬Trips n events := by
  rintro ⟨i, args, htripped⟩
  exact hnone n (htripped.subset (by simp [Event.ofTripped]))

theorem Trips.of_suffix
    {events events' : List Event}
    (htrips : Trips n events) (hsuffix : events <:+ events') :
    Trips n events' := by
  obtain ⟨i, args, htripped⟩ := htrips
  exact ⟨i, args, htripped.trans hsuffix.isInfix⟩

theorem Exceeds.of_suffix
    (hexceeds : Exceeds past n history) (hsuffix : history <:+ history') :
    Exceeds past n history' := by
  obtain ⟨events, rfl, hdeepest⟩ := hexceeds
  obtain ⟨new, rfl⟩ := hsuffix
  refine ⟨new ++ events, (List.append_assoc new events past).symm, ?_⟩
  exact Nat.lt_of_lt_of_le hdeepest (Event.deepest_le_append new events)

theorem Refuses.of_suffix
    (hrefuses : Refuses past n history) (hsuffix : history <:+ history') :
    Refuses past n history' := by
  obtain ⟨events, rfl, htrips, hdeepest⟩ := hrefuses
  obtain ⟨new, rfl⟩ := hsuffix
  refine ⟨new ++ events, (List.append_assoc new events past).symm,
    htrips.of_suffix (List.suffix_append new events), ?_⟩
  exact Nat.lt_of_lt_of_le hdeepest (Event.deepest_le_append new events)

end Marks

/-! ### Evaluations that keep what has been noted -/

namespace Res

variable {α β : Type} {es : List Event}

/-- Whatever an evaluation comes to, some events stay noted. -/
def Since (es : List Event) : Res α → Prop
  | value _ h => es <:+ h.history
  | raise _ h => es <:+ h.history
  | blocked _ h resume => es <:+ h.history ∧ ∀ h', es <:+ h'.history → (resume h').Since es
  | outOfFuel => True

theorem Since.bind
    {r : Res α} {f : α → Heap → Res β}
    (hr : r.Since es) (hf : ∀ a h, es <:+ h.history → (f a h).Since es) :
    (r.bind f).Since es := by
  induction r with
  | value a h =>
      exact hf a h hr
  | raise s h =>
      exact hr
  | blocked b h resume ih =>
      obtain ⟨hnow, hlater⟩ := hr
      exact ⟨hnow, fun h' hh' => ih h' (hlater h' hh')⟩
  | outOfFuel =>
      trivial

theorem Since.attempt
    {r : Res α}
    (hr : r.Since es) :
    r.attempt.Since es := by
  induction r with
  | value a h =>
      exact hr
  | raise s h =>
      exact hr
  | blocked b h resume ih =>
      obtain ⟨hnow, hlater⟩ := hr
      exact ⟨hnow, fun h' hh' => ih h' (hlater h' hh')⟩
  | outOfFuel =>
      trivial

theorem Since.mapFault
    {r : Res α} (f : Fault → Fault)
    (hr : r.Since es) :
    (r.mapFault f).Since es := by
  induction r with
  | value a h =>
      exact hr
  | raise s h =>
      cases s with
      | thrown e =>
          exact hr
      | fault e =>
          exact hr
  | blocked b h resume ih =>
      obtain ⟨hnow, hlater⟩ := hr
      exact ⟨hnow, fun h' hh' => ih h' (hlater h' hh')⟩
  | outOfFuel =>
      trivial

end Res

/-- A computation keeps what has been noted. -/
def Records {α : Type} (x : Eval α) : Prop :=
  ∀ c h es, es <:+ h.history → (x c h).Since es

namespace Records

variable {α β : Type}

theorem bind
    {x : Eval α} {f : α → Eval β}
    (hx : Records x) (hf : ∀ a, Records (f a)) :
    Records (x >>= f) := by
  intro c h es hes
  rw [Eval.bind_apply]
  exact (hx c h es hes).bind fun a h' => hf a c h' es

theorem attempt
    {x : Eval α}
    (hx : Records x) :
    Records (Eval.attempt x) := by
  intro c h es hes
  exact (hx c h es hes).attempt

theorem raise
    (s : Signal) :
    Records (Eval.raise s : Eval α) := by
  intro c h es hes
  exact hes

theorem ofOutcome
    (outcome : Except Signal α) :
    Records (Eval.ofOutcome outcome) := by
  intro c h es hes
  cases outcome with
  | ok a =>
      exact hes
  | error s =>
      exact hes

theorem note
    (e : Event) :
    Records (Eval.note e) := by
  intro c h es hes
  show es <:+ (h.note e).history
  rw [Heap.history_note]
  exact hes.trans (List.suffix_cons e h.history)

theorem admitted
    {x : Eval α}
    (hx : Records x) :
    Records (Eval.admitted x) := by
  intro c h es hes
  unfold Eval.admitted
  split
  · exact bind (note _) (fun _ => bind (note _) fun _ => raise _) c h es hes
  · exact hx { c with depth := c.depth + 1 } h es hes

/-- What follows once a call has begun. -/
theorem answering
    {i : Invocation} {x : Eval Value}
    (hx : Records x) :
    Records (do
      let outcome ← Eval.attempt (Eval.admitted x)
      Eval.note (.answered i outcome)
      Eval.ofOutcome outcome) := by
  exact bind (attempt (admitted hx)) fun outcome => bind (note _) fun _ => ofOutcome outcome

end Records

/-! ### Evaluations that go abreast -/

/-- Two runs of a computation do the same until the smaller of their limits refuses a call. -/
inductive Abreast (past : List Event) (n d : Nat) {α : Type} : Res α → Res α → Prop
  | value {a : α} {h : Heap} :
      Within past n d h → Abreast past n d (.value a h) (.value a h)
  | raise {s : Signal} {h : Heap} :
      Within past n d h → Abreast past n d (.raise s h) (.raise s h)
  /-- They wait for the same; meanwhile no other thread makes calls. -/
  | blocked {b : Blocker} {h : Heap} {resume resume' : Heap → Res α} {d' : Nat} :
      Within past n d' h →
      (∀ h', Within past n d' h' → Abreast past n d (resume h') (resume' h')) →
      Abreast past n d (.blocked b h resume) (.blocked b h resume')
  | outOfFuel :
      Abreast past n d .outOfFuel .outOfFuel
  /-- The smaller limit has refused a call. -/
  | apart {r r' : Res α} {es es' : List Event} :
      Refuses past n es → r.Since es → Exceeds past n es' → r'.Since es' →
      Abreast past n d r r'

namespace Abreast

variable {past : List Event} {n d d' : Nat} {α β : Type} {r r' : Res α}

/-- The continuations are abreast where the runs still are, and keep what has been noted. -/
theorem bind
    {f f' : α → Heap → Res β}
    (hr : Abreast past n d r r')
    (hf : ∀ a h, Within past n d h → Abreast past n d (f a h) (f' a h))
    (hkeep : ∀ a h es, es <:+ h.history → (f a h).Since es)
    (hkeep' : ∀ a h es, es <:+ h.history → (f' a h).Since es) :
    Abreast past n d (r.bind f) (r'.bind f') := by
  induction hr with
  | value hwithin =>
      exact hf _ _ hwithin
  | raise hwithin =>
      exact .raise hwithin
  | blocked hwithin _ ih =>
      exact .blocked hwithin ih
  | outOfFuel =>
      exact .outOfFuel
  | apart hrefuses hr hexceeds hr' =>
      exact .apart hrefuses (hr.bind fun a h => hkeep a h _) hexceeds
        (hr'.bind fun a h => hkeep' a h _)

/-- Who takes every outcome may go on with other calls under way. -/
theorem attempt_bind
    {f f' : Except Signal α → Heap → Res β}
    (hr : Abreast past n d r r')
    (hf : ∀ outcome h, Within past n d h → Abreast past n d' (f outcome h) (f' outcome h))
    (hkeep : ∀ outcome h es, es <:+ h.history → (f outcome h).Since es)
    (hkeep' : ∀ outcome h es, es <:+ h.history → (f' outcome h).Since es) :
    Abreast past n d' (r.attempt.bind f) (r'.attempt.bind f') := by
  induction hr with
  | value hwithin =>
      exact hf _ _ hwithin
  | raise hwithin =>
      exact hf _ _ hwithin
  | blocked hwithin _ ih =>
      exact .blocked hwithin ih
  | outOfFuel =>
      exact .outOfFuel
  | apart hrefuses hr hexceeds hr' =>
      exact .apart hrefuses (hr.attempt.bind fun o h => hkeep o h _) hexceeds
        (hr'.attempt.bind fun o h => hkeep' o h _)

theorem attempt
    (hr : Abreast past n d r r') :
    Abreast past n d r.attempt r'.attempt := by
  have hbind : Abreast past n d (r.attempt.bind .value) (r'.attempt.bind .value) :=
    hr.attempt_bind (fun _ _ hwithin => .value hwithin) (fun _ _ _ hes => hes) fun _ _ _ hes => hes
  rwa [Res.bind_value, Res.bind_value] at hbind

theorem mapFault
    (f : Fault → Fault)
    (hr : Abreast past n d r r') :
    Abreast past n d (r.mapFault f) (r'.mapFault f) := by
  induction hr with
  | value hwithin =>
      exact .value hwithin
  | @raise s h hwithin =>
      cases s with
      | thrown e =>
          exact .raise hwithin
      | fault e =>
          exact .raise hwithin
  | blocked hwithin _ ih =>
      exact .blocked hwithin ih
  | outOfFuel =>
      exact .outOfFuel
  | apart hrefuses hr hexceeds hr' =>
      exact .apart hrefuses (hr.mapFault f) hexceeds (hr'.mapFault f)

end Abreast

/-- For a computation the limit of calls is a cut-off only. -/
structure Capped {α : Type} (x : Eval α) : Prop where
  records : Records x
  abreast : ∀ {past n m d frame h}, n ≤ m → Within past n d h →
    Abreast past n d (x ⟨d, n, frame⟩ h) (x ⟨d, m, frame⟩ h)

namespace Capped

variable {α β : Type}

theorem pure
    (a : α) :
    Capped (Pure.pure a : Eval α) where
  records _ _ _ hes := hes
  abreast _ hwithin := .value hwithin

theorem raise
    (s : Signal) :
    Capped (Eval.raise s : Eval α) where
  records := .raise s
  abreast _ hwithin := .raise hwithin

theorem giveUp :
    Capped (Eval.giveUp : Eval α) where
  records _ _ _ _ := trivial
  abreast _ _ := .outOfFuel

theorem bind
    {x : Eval α} {f : α → Eval β}
    (hx : Capped x) (hf : ∀ a, Capped (f a)) :
    Capped (x >>= f) where
  records := .bind hx.records fun a => (hf a).records
  abreast {past n m d frame h} hle hwithin := by
    rw [Eval.bind_apply, Eval.bind_apply]
    refine (hx.abreast hle hwithin).bind (fun a h' hwithin' => (hf a).abreast hle hwithin') ?_ ?_
    · exact fun a h' => (hf a).records ⟨d, n, frame⟩ h'
    · exact fun a h' => (hf a).records ⟨d, m, frame⟩ h'

theorem attempt
    {x : Eval α}
    (hx : Capped x) :
    Capped (Eval.attempt x) where
  records := .attempt hx.records
  abreast hle hwithin := (hx.abreast hle hwithin).attempt

theorem mapFault
    {x : Eval α} (f : Fault → Fault)
    (hx : Capped x) :
    Capped (Eval.mapFault f x) where
  records c h es hes := (hx.records c h es hes).mapFault f
  abreast hle hwithin := (hx.abreast hle hwithin).mapFault f

theorem within
    {x : Eval α} (frame : ScopeId)
    (hx : Capped x) :
    Capped (Eval.within frame x) where
  records c h es hes := hx.records { c with frame := some frame } h es hes
  abreast hle hwithin := hx.abreast hle hwithin

theorem currentFrame :
    Capped Eval.currentFrame where
  records _ _ _ hes := hes
  abreast _ hwithin := .value hwithin

/-- A change of the heap of which nothing is noted. -/
theorem change
    {f : Heap → α × Heap}
    (hf : ∀ h, (f h).2.history = h.history) :
    Capped (Eval.change f) where
  records c h es hes := by
    show es <:+ (f h).2.history
    rwa [hf h]
  abreast {past n m d frame h} _ hwithin := .value (hwithin.quiet (hf h))

theorem modify
    {f : Heap → Heap}
    (hf : ∀ h, (f h).history = h.history) :
    Capped (Eval.modify f) := by
  exact change (f := fun h => ((), f h)) hf

theorem await
    {b : Blocker} {step : Heap → Option (α × Heap)}
    (hstep : ∀ h a h', step h = some (a, h') → h'.history = h.history) :
    Capped (Eval.await b step) where
  records c h es hes := by
    unfold Eval.await
    split
    · next a h' hs =>
        show es <:+ h'.history
        rwa [hstep h a h' hs]
    · refine ⟨hes, fun h' hes' => ?_⟩
      dsimp only
      split
      · next a h'' hs =>
          show es <:+ h''.history
          rwa [hstep h' a h'' hs]
      · trivial
  abreast {past n m d frame h} _ hwithin := by
    unfold Eval.await
    split
    · next a h' hs =>
        exact .value (hwithin.quiet (hstep h a h' hs))
    · refine .blocked hwithin fun h' hwithin' => ?_
      split
      · next a h'' hs =>
          exact .value (hwithin'.quiet (hstep h' a h'' hs))
      · exact .outOfFuel

theorem yield :
    Capped Eval.yield where
  records _ _ _ hes := ⟨hes, fun _ hes' => hes'⟩
  abreast _ hwithin := .blocked hwithin fun _ hwithin' => .value hwithin'

/-- An event that befalls no call. -/
theorem note
    {e : Event} (he : e.isOfCall = false) :
    Capped (Eval.note e) where
  records := .note e
  abreast _ hwithin := .value (hwithin.told he)

/-- Where calls are nested as deep as they may be, the next one ends with a fault, and nothing of it
is run. -/
private theorem deeper_of_lt
    {n d : Nat} (i : Invocation) (args : List Value) (x : Eval Value) (frame : Option ScopeId)
    (h : Heap) (hlt : n < d + 1) :
    ∃ h', Eval.deeper i args x ⟨d, n, frame⟩ h = .raise (Event.overLimit n) h' ∧
      h'.history = Event.ofTripped i args n ++ h.history := by
  have hrefused (h : Heap) : Eval.admitted x ⟨d, n, frame⟩ h =
      .raise (Event.overLimit n) ((h.note (.refused n)).note (.faulted (.callDepth n))) :=
    if_pos hlt
  refine ⟨(((h.note (.called i args)).note (.refused n)).note (.faulted (.callDepth n))).note
    (.answered i (.error (Event.overLimit n))), ?_, ?_⟩
  · rw [Eval.deeper, Eval.note_bind_apply, Eval.bind_apply, Eval.attempt_apply, hrefused]
    rfl
  · simp [Event.ofTripped]

private theorem admitted_of_le
    {n d : Nat} (x : Eval α) (frame : Option ScopeId) (h : Heap) (hle : d + 1 ≤ n) :
    Eval.admitted x ⟨d, n, frame⟩ h = x ⟨d + 1, n, frame⟩ h := by
  exact if_neg (Nat.not_lt.mpr hle)

/-- Only here do the limits matter. -/
theorem deeper
    {i : Invocation} {args : List Value} {x : Eval Value}
    (hx : Capped x) :
    Capped (Eval.deeper i args x) where
  records := .bind (.note _) fun _ => .answering hx.records
  abreast {past n m d frame h} hle hwithin := by
    by_cases hlt : n < d + 1
    · -- the call trips the smaller limit; nothing is known of the other run from here on
      obtain ⟨h', happly, hhistory⟩ := deeper_of_lt i args x frame h hlt
      rw [happly, Eval.deeper, Eval.note_bind_apply]
      refine .apart (hwithin.refuses i args hlt) ?_ (hwithin.exceeds i args hlt) ?_
      · exact hhistory ▸ List.suffix_refl _
      · exact Records.answering hx.records _ (h.note (.called i args)) _
          (Heap.history_note h _ ▸ List.suffix_refl _)
    · have hin : d + 1 ≤ n := Nat.le_of_not_lt hlt
      rw [Eval.deeper, Eval.note_bind_apply, Eval.note_bind_apply, Eval.bind_apply, Eval.bind_apply,
        Eval.attempt_apply, Eval.attempt_apply, admitted_of_le x frame _ hin,
        admitted_of_le x frame _ (Nat.le_trans hin hle)]
      have hrest (outcome : Except Signal Value) :
          Records (do Eval.note (.answered i outcome); Eval.ofOutcome outcome) :=
        .bind (.note _) fun _ => .ofOutcome outcome
      refine (hx.abreast hle (hwithin.called i args hin)).attempt_bind (fun outcome h' hwithin' => ?_)
        (fun outcome h' => hrest outcome _ h') fun outcome h' => hrest outcome _ h'
      cases outcome with
      | ok a =>
          exact .value (hwithin'.answered i _)
      | error s =>
          exact .raise (hwithin'.answered i _)

/-! ### What is put together from these -/

theorem fault
    (c : Cause) :
    Capped (Eval.fault c : Eval α) := by
  exact bind (note rfl) fun _ => raise _

theorem throwValue
    (e : Exception) :
    Capped (Eval.throwValue e : Eval α) := by
  exact bind (note rfl) fun _ => raise _

theorem ofOutcome
    (outcome : Except Signal α) :
    Capped (Eval.ofOutcome outcome) := by
  cases outcome with
  | ok a =>
      exact pure a
  | error s =>
      exact raise s

theorem supersede
    (outcome : Except Signal α) :
    Capped (Eval.supersede outcome) := by
  unfold Eval.supersede
  split
  · exact note rfl
  · exact pure ()

theorem catching
    {clauses : List (CatchClause Stmt)} {x : Eval α}
    {handler : CatchClause Stmt → Exception → Eval α}
    (hx : Capped x) (hhandler : ∀ c e, Capped (handler c e)) :
    Capped (Eval.catching clauses x handler) := by
  refine bind (note rfl) fun _ => bind (attempt hx) fun outcome => ?_
  split
  · next e =>
      refine bind (change (f := fun h => (h, h)) fun h => rfl) fun h => ?_
      split
      · exact bind (note rfl) fun _ => hhandler _ e
      · exact bind (note rfl) fun _ => raise _
  · exact bind (note rfl) fun _ => ofOutcome _

theorem diverting
    {x : Eval α} {handler : Exception → Eval α}
    (hx : Capped x) (hhandler : ∀ e, Capped (handler e)) :
    Capped (Eval.diverting x handler) := by
  refine bind (note rfl) fun _ => bind (attempt hx) fun outcome => ?_
  split
  · next e =>
      exact bind (note rfl) fun _ => hhandler e
  · exact bind (note rfl) fun _ => ofOutcome _

theorem afterwards
    {x : Eval α} {f : Heap → Heap}
    (hx : Capped x) (hf : ∀ h, (f h).history = h.history) :
    Capped (Eval.afterwards x f) := by
  exact bind (attempt hx) fun outcome => bind (modify hf) fun _ => ofOutcome outcome

theorem withCleanup
    {x cleanup : Eval Flow}
    (hx : Capped x) (hcleanup : Capped cleanup) :
    Capped (Eval.withCleanup x cleanup) := by
  refine bind (note rfl) fun _ => bind (attempt hx) fun outcome => ?_
  refine bind (note rfl) fun _ => bind (attempt hcleanup) fun later => ?_
  split
  · exact bind (note rfl) fun _ => ofOutcome outcome
  · exact bind (note rfl) fun _ => bind (supersede outcome) fun _ => ofOutcome later

theorem tracked
    {a : Act} {flow : α → Flow} {x : Eval α}
    (hx : Capped x) :
    Capped (Eval.tracked a flow x) := by
  refine bind currentFrame fun frame => bind (note rfl) fun _ => bind (attempt hx) fun outcome => ?_
  exact bind (note rfl) fun _ => ofOutcome outcome

theorem join
    (id : Nat) :
    Capped (Builtin.awaitThread id) := by
  refine bind (await fun h outcome h' hs => ?_) fun outcome => ?_
  · obtain ⟨found, -, heq⟩ := Option.map_eq_some_iff.mp hs
    cases heq
    rfl
  · split
    · exact pure _
    · exact throwValue _
    · exact raise _

theorem spawn
    (body : List Stmt) (env : Env) :
    Capped (Builtin.startThread body env) := by
  exact change fun h => rfl

theorem deferCall
    (env : Env) (d : Deferred) :
    Capped (Eval.deferCall env d) := by
  exact bind (modify fun h => rfl) fun _ => bind currentFrame fun frame => note rfl

theorem runDefers
    {E : Engine} (frame : ScopeId) (ds : List Deferred) (outcome : Except Signal Flow)
    (hcall : ∀ d, Capped (Eval.makeDeferredCall E d)) :
    Capped (Eval.runDefers E frame outcome ds) := by
  induction ds generalizing outcome with
  | nil =>
      exact pure outcome
  | cons d earlier ih =>
      refine bind (note rfl) fun _ => bind (attempt (mapFault _ (hcall d))) fun later => ?_
      split
      · exact bind (note rfl) fun _ => ih outcome
      · exact bind (note rfl) fun _ => bind (supersede outcome) fun _ => ih _

theorem leaveFrame
    {E : Engine} {env : Env} {code : LambdaBody Expr Stmt}
    (hcode : Capped (Eval.runCode E code env)) (hcall : ∀ d, Capped (Eval.makeDeferredCall E d)) :
    Capped (Eval.leaveFrame E env code) := by
  refine bind currentFrame fun caller => bind (note rfl) fun _ => ?_
  refine bind (within _ ?_) fun outcome => bind (note rfl) fun _ => ofOutcome outcome
  refine bind (attempt hcode) fun outcome => bind (change fun h => rfl) fun defers => ?_
  exact bind (note rfl) fun _ => bind (note rfl) fun _ => runDefers _ _ outcome hcall

end Capped

/-- What the engine runs is capped, so what is composed of it is. -/
theorem Capped.of_composed
    {E : Engine} {r : Role} {α : Type} {x : Eval α}
    (hE : ∀ {β : Type} (t : Task β), Capped (E.run t))
    (hx : Composed E r x) :
    Capped x := by
  induction hx with
  | pure a =>
      exact pure a
  | bind _ _ ihx ihf =>
      exact bind ihx ihf
  | plain _ ih =>
      exact ih
  | thrown e =>
      exact throwValue e
  | fault c =>
      exact fault c
  | giveUp =>
      exact giveUp
  | change hf =>
      exact change fun h => (hf h).history
  | await hstep =>
      exact await fun h a h' hs => (hstep h a h' hs).history
  | yield =>
      exact yield
  | join id =>
      exact join id
  | spawn body env =>
      exact spawn body env
  | called _ ih =>
      exact deeper (mapFault _ ih)
  | built _ ih =>
      exact bind (note rfl) fun _ => afterwards ih fun h => (Calm.endConstruction _ h).history
  | mapFault _ _ ih =>
      exact mapFault _ ih
  | diverting _ _ ihx ihhandler =>
      exact diverting ihx ihhandler
  | afterwards _ hf ih =>
      exact afterwards ih fun h => (hf h).history
  | block _ _ ih =>
      exact bind (change fun h => rfl) ih
  | body _ ih =>
      exact tracked ih
  | openFrame _ ih =>
      exact bind (change fun h => rfl) ih
  | openFields _ ih =>
      exact bind (change fun h => rfl) ih
  | leave _ _ ihcode ihcall =>
      exact leaveFrame ihcode ihcall
  | exec s _ =>
      exact hE (.exec s _)
  | eval e env =>
      exact hE (.eval e env)
  | call callee args typeArgs site =>
      exact hE (.call callee args typeArgs site)
  | text v =>
      exact hE (.text v)

/-- What operations preserve: the limit is a cut-off only. -/
theorem Capped.preserved :
    Preserved fun _ _ x => Capped x where
  giveUp := giveUp
  composed hE _ _ _ hx := of_composed hE hx
  tracked := tracked
  mapFault _ hx := mapFault _ hx
  defer env d := bind (deferCall env d) fun _ => pure _
  catching := catching
  withCleanup := withCleanup

/-- Whatever the engine runs is capped. -/
theorem capped_run
    (fuel : Nat) {α : Type} (t : Task α) :
    Capped (Eval.run fuel t) := by
  exact Capped.preserved.run fuel t

/-- What is composed of tasks of the engine is capped. -/
theorem capped_composed
    {r : Role} {α : Type} {x : Eval α}
    (hx : Composed Eval.engine r x) :
    Capped x := by
  exact .of_composed (capped_run Eval.fullFuel) hx

end ScriptEngine
