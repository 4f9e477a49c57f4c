import ScriptEngine.Proofs.Evaluation.Calls
import ScriptEngine.Proofs.Frames.History

/-!
# Frames that a thread holds

Threads run code of different frames.  A thread *holds* the frames that it has entered and not yet
left, and those that it has opened to enter them.  What it holds tells the status of each, and
nobody else touches them.

A `Stretch` leads from what a thread holds in a heap to what it holds in a later one.  Frames that
the thread does not hold it spares, unless they are new; frames that it lets go are idle; and the
frames of the threads it has spawned are new, distinct and idle.  Stretches make up the protocol
`frames`.
-/

namespace ScriptEngine

namespace Heap

/-- The number of scopes so far. -/
def width (h : Heap) : Nat := h.scopes.items.size

/-- Whether a scope is that of a call. -/
def IsFrame (h : Heap) (f : ScopeId) : Prop := (h.scopes.scope f).frame.isSome

/-- The calls that a frame has registered. -/
def defersOf (h : Heap) (f : ScopeId) : List Deferred :=
  match (h.scopes.scope f).frame with
  | some frame => frame.defers
  | none => []

/-- The history tells that a frame has a status, and the frame agrees about its deferred calls. -/
def At (h : Heap) (f : ScopeId) (s : Status) : Prop :=
  After f h.history s ∧ h.defersOf f = s.stage.pending

/-- Scopes that do not exist yet have no history. -/
def Tidy (h : Heap) : Prop := ∀ f, h.width ≤ f → h.At f .idle

/-- The frames after one of them was given other deferred calls. -/
theorem isFrame_update
    {h h' : Heap} {f : ScopeId} {frame : Frame}
    (hf : h.IsFrame f)
    (scopes : h'.scopes = h.scopes.update f fun sc => { sc with frame := some frame })
    (g : ScopeId) :
    h'.IsFrame g ↔ h.IsFrame g := by
  rw [IsFrame, IsFrame, scopes, Scopes.scope_update]
  split
  · next heq =>
      rw [← heq.1]
      exact ⟨fun _ => hf, fun _ => rfl⟩
  · exact Iff.rfl

/-- What frames have registered after one of them was given other deferred calls. -/
theorem defersOf_update
    {h h' : Heap} {f : ScopeId} {frame : Frame}
    (hf : f < h.width)
    (scopes : h'.scopes = h.scopes.update f fun sc => { sc with frame := some frame })
    (g : ScopeId) :
    h'.defersOf g = if g = f then frame.defers else h.defersOf g := by
  rw [defersOf, scopes, Scopes.scope_update]
  by_cases hg : g = f
  · subst hg
    have hlt : g < h.scopes.items.size := hf
    simp [hlt]
  · have hne : ¬f = g := fun heq => hg heq.symm
    simp [hg, hne, defersOf]

/-- Scopes are only added, and whether a scope is that of a call is settled from the start. -/
structure Grows (h h' : Heap) : Prop where
  width : h.width ≤ h'.width
  frames : ∀ f, f < h.width → (h'.IsFrame f ↔ h.IsFrame f)

namespace Grows

theorem refl
    (h : Heap) :
    Grows h h := by
  exact ⟨Nat.le_refl _, fun _ _ => Iff.rfl⟩

theorem trans
    {h₁ h₂ h₃ : Heap}
    (h₁₂ : Grows h₁ h₂) (h₂₃ : Grows h₂ h₃) :
    Grows h₁ h₃ := by
  refine ⟨Nat.le_trans h₁₂.width h₂₃.width, fun f hf => ?_⟩
  exact (h₂₃.frames f (Nat.lt_of_lt_of_le hf h₁₂.width)).trans (h₁₂.frames f hf)

end Grows

/-- Only scopes that exist belong to calls. -/
theorem IsFrame.lt_width
    {h : Heap} {f : ScopeId}
    (hf : h.IsFrame f) :
    f < h.width := by
  refine Nat.lt_of_not_le fun hle => ?_
  have hscope : h.scopes.scope f = default := by
    rw [width] at hle
    simp [Scopes.scope, Array.getD_eq_getD_getElem?, hle]
  rw [IsFrame, hscope] at hf
  cases hf

/-- A scope within a frame: the frame is the nearest one around it. -/
inductive Within (h : Heap) (f : ScopeId) : Env → Prop
  | frame {rest : Env} : h.IsFrame f → Within h f (f :: rest)
  | block {id : ScopeId} {rest : Env} :
      id < h.width → ¬h.IsFrame id → Within h f rest → Within h f (id :: rest)

/-- A scope stays within its frame. -/
theorem Within.grows
    {h h' : Heap} {f : ScopeId} {env : Env}
    (hgrows : Grows h h') (henv : h.Within f env) :
    h'.Within f env := by
  induction henv with
  | frame hf =>
      exact .frame ((hgrows.frames f hf.lt_width).mpr hf)
  | block hid hnot hrest ih =>
      refine .block (Nat.lt_of_lt_of_le hid hgrows.width) (fun hf => hnot ?_) ih
      exact (hgrows.frames _ hid).mp hf

/-- The frame around a scope is the one that its statements register calls with. -/
theorem Within.innermostFrame
    {h : Heap} {f : ScopeId} {env : Env}
    (henv : h.Within f env) :
    ∃ frame, h.scopes.innermostFrame env = some (f, frame) ∧
      (h.scopes.scope f).frame = some frame := by
  induction henv with
  | frame hf =>
      obtain ⟨frame, hframe⟩ := Option.isSome_iff_exists.mp hf
      exact ⟨frame, by simp [Scopes.innermostFrame, hframe], hframe⟩
  | @block id rest hid hnot hrest ih =>
      obtain ⟨frame, hinner, hframe⟩ := ih
      have hnone : (h.scopes.scope id).frame = none := by
        simpa [IsFrame] using hnot
      exact ⟨frame, by simp [Scopes.innermostFrame, hnone, hinner], hframe⟩

end Heap

/-! ### Holdings -/

/-- The frames that a thread holds, with their status. -/
def Holding := ScopeId → Option Status

namespace Holding

/-- A thread that holds nothing. -/
def none : Holding := fun _ => Option.none

/-- Gives a frame a status, or lets it go. -/
def set (k : Holding) (f : ScopeId) (s : Option Status) : Holding :=
  fun g => if g = f then s else k g

@[simp] theorem none_apply
    (f : ScopeId) :
    Holding.none f = Option.none := by
  rfl

@[simp] theorem set_same
    (k : Holding) (f : ScopeId) (s : Option Status) :
    k.set f s f = s := by
  simp [set]

theorem set_of_ne
    (k : Holding) {f g : ScopeId} (s : Option Status)
    (h : g ≠ f) :
    k.set f s g = k g := by
  simp [set, h]

@[simp] theorem set_set
    (k : Holding) (f : ScopeId) (s s' : Option Status) :
    (k.set f s).set f s' = k.set f s' := by
  funext g
  by_cases h : g = f <;> simp [set, h]

theorem set_eq_self
    {k : Holding} {f : ScopeId} {s : Option Status}
    (h : k f = s) :
    k.set f s = k := by
  funext g
  by_cases hg : g = f
  · subst hg
    simp [set, h]
  · simp [set, hg]

end Holding

/-- The frame of a thread that is to be spawned. -/
def Job.frame? : Job → Option ScopeId
  | .thread _ _ (f :: _) => some f
  | _ => none

/-- What a thread holds is what it knows of the heap. -/
structure Holds (k : Holding) (h : Heap) : Prop where
  tidy : h.Tidy
  status : ∀ {f s}, k f = some s → h.At f s
  framed : ∀ {f s}, k f = some s → h.IsFrame f

/-- Nobody holds a scope that is still to be opened. -/
theorem Holds.free_width
    {k : Holding} {h : Heap}
    (hk : Holds k h) :
    k h.width = none := by
  cases hs : k h.width with
  | none =>
      rfl
  | some s =>
      exact absurd (hk.framed hs).lt_width (Nat.lt_irrefl _)

/-- Jobs that were added to those of a heap, while `k` came to be held. -/
structure Spawned (k : Holding) (h h' : Heap) (js : List Job) : Prop where
  jobs : h'.jobs = h.jobs ++ js
  fresh : ∀ {id body env}, .thread id body env ∈ js →
    ∃ f, env = [f] ∧ h.width ≤ f ∧ h'.IsFrame f ∧ k f = none
  distinct : (js.filterMap Job.frame?).Nodup

/-- What a thread does to frames before it waits. -/
structure Stretch (k : Holding) (h : Heap) (k' : Holding) (h' : Heap) : Prop where
  grows : h.Grows h'
  holds : Holds k' h'
  spares : ∀ {f s}, k f = none → f < h.width → h.At f s → h'.At f s
  held : ∀ {f s}, k' f = some s → k f ≠ none ∨ h.width ≤ f
  released : ∀ {f}, k' f = none → k f ≠ none ∨ h.width ≤ f → h'.At f .idle
  spawned : ∃ js, Spawned k' h h' js

namespace Spawned

variable {k k' : Holding} {h h' h'' : Heap} {js js' : List Job}

/-- The frame of a spawned thread is new. -/
theorem frame_fresh
    (hjs : Spawned k h h' js) {f : ScopeId}
    (hf : f ∈ js.filterMap Job.frame?) :
    h.width ≤ f ∧ h'.IsFrame f ∧ k f = none := by
  obtain ⟨j, hj, hframe⟩ := List.mem_filterMap.mp hf
  cases j with
  | thread id body env =>
      obtain ⟨g, rfl, hwidth, hg, hk⟩ := hjs.fresh hj
      cases hframe
      exact ⟨hwidth, hg, hk⟩
  | async body target =>
      cases hframe
  | continuation c settled =>
      cases hframe

theorem none
    (hjobs : h'.jobs = h.jobs) :
    Spawned k h h' [] := by
  exact ⟨by simp [hjobs], by simp, by simp⟩

/-- Jobs without threads. -/
theorem of_no_thread
    (hjobs : h'.jobs = h.jobs ++ js)
    (hjs : ∀ id body env, .thread id body env ∉ js) :
    Spawned k h h' js := by
  refine ⟨hjobs, fun {id body env} hj => absurd hj (hjs _ _ _), ?_⟩
  suffices hnil : js.filterMap Job.frame? = [] by
    rw [hnil]
    exact List.nodup_nil
  rw [List.filterMap_eq_nil_iff]
  intro j hj
  cases j with
  | thread id body env =>
      exact absurd hj (hjs _ _ _)
  | async body target =>
      rfl
  | continuation c settled =>
      rfl

end Spawned

namespace Stretch

variable {k k₁ k₂ k₃ : Holding} {h h' h₁ h₂ h₃ : Heap}

theorem refl
    (hk : Holds k h) :
    Stretch k h k h where
  grows := .refl h
  holds := hk
  spares _ _ hs := hs
  held hs := .inl (by simp [hs])
  released hnone hor := hk.tidy _ (hor.resolve_left (absurd hnone))
  spawned := ⟨[], .none rfl⟩

theorem trans
    (h₁₂ : Stretch k₁ h₁ k₂ h₂) (h₂₃ : Stretch k₂ h₂ k₃ h₃) :
    Stretch k₁ h₁ k₃ h₃ where
  grows := h₁₂.grows.trans h₂₃.grows
  holds := h₂₃.holds
  spares {f s} hnone hf hs := by
    have hnone₂ : k₂ f = none := by
      cases hk₂ : k₂ f with
      | none =>
          rfl
      | some s' =>
          rcases h₁₂.held hk₂ with hne | hle
          · exact absurd hnone hne
          · exact absurd hf (Nat.not_lt.mpr hle)
    have hf₂ : f < h₂.width := Nat.lt_of_lt_of_le hf h₁₂.grows.width
    exact h₂₃.spares hnone₂ hf₂ (h₁₂.spares hnone hf hs)
  held {f s} hs := by
    rcases h₂₃.held hs with hne | hle
    · obtain ⟨s₂, hs₂⟩ := Option.ne_none_iff_exists'.mp hne
      exact h₁₂.held hs₂
    · exact .inr (Nat.le_trans h₁₂.grows.width hle)
  released {f} hnone hor := by
    by_cases hk₂ : k₂ f ≠ none ∨ h₂.width ≤ f
    · exact h₂₃.released hnone hk₂
    · obtain ⟨hnot, hlt⟩ := not_or.mp hk₂
      have hnone₂ : k₂ f = none := by
        cases hs : k₂ f with
        | none =>
            rfl
        | some s =>
            exact absurd (by simp [hs]) hnot
      exact h₂₃.spares hnone₂ (Nat.lt_of_not_le hlt) (h₁₂.released hnone₂ hor)
  spawned := by
    obtain ⟨js, hjs⟩ := h₁₂.spawned
    obtain ⟨js', hjs'⟩ := h₂₃.spawned
    refine ⟨js ++ js', ?_, fun {id body env} hj => ?_, ?_⟩
    · rw [hjs'.jobs, hjs.jobs, List.append_assoc]
    · rcases List.mem_append.mp hj with hj | hj
      · obtain ⟨f, henv, hwidth, hf, hnone⟩ := hjs.fresh hj
        have hnone₃ : k₃ f = none := by
          cases hk₃ : k₃ f with
          | none =>
              rfl
          | some s' =>
              rcases h₂₃.held hk₃ with hne | hle
              · exact absurd hnone hne
              · exact absurd hf.lt_width (Nat.not_lt.mpr hle)
        exact ⟨f, henv, hwidth, (h₂₃.grows.frames f hf.lt_width).mpr hf, hnone₃⟩
      · obtain ⟨f, henv, hwidth, hf, hnone⟩ := hjs'.fresh hj
        exact ⟨f, henv, Nat.le_trans h₁₂.grows.width hwidth, hf, hnone⟩
    · rw [List.filterMap_append]
      refine List.nodup_append.mpr ⟨hjs.distinct, hjs'.distinct, fun f hf g hg => ?_⟩
      rintro rfl
      have hlt := (hjs.frame_fresh hf).2.1.lt_width
      have hle := (hjs'.frame_fresh hg).1
      exact Nat.not_lt.mpr hle hlt

/-- A change that leaves the history and the frames as they are, and queues no threads. -/
theorem of_frames
    (hk : Holds k h) (history : h'.history = h.history)
    (width : h.scopes.items.size ≤ h'.scopes.items.size)
    (frames : ∀ id, (h'.scopes.scope id).frame = (h.scopes.scope id).frame) {js : List Job}
    (jobs : h'.jobs = h.jobs ++ js) (hthread : ∀ id body env, .thread id body env ∉ js) :
    Stretch k h k h' := by
  have hdefers (f : ScopeId) : h'.defersOf f = h.defersOf f := by
    simp [Heap.defersOf, frames f]
  have hat {f : ScopeId} {s : Status} (hs : h.At f s) : h'.At f s := by
    exact ⟨history ▸ hs.1, (hdefers f).trans hs.2⟩
  have hframe (f : ScopeId) : h'.IsFrame f ↔ h.IsFrame f := by
    simp [Heap.IsFrame, frames f]
  have htidy : h'.Tidy := fun f hf => hat (hk.tidy f (Nat.le_trans width hf))
  exact
    { grows := ⟨width, fun f _ => hframe f⟩
      holds := ⟨htidy, fun hs => hat (hk.status hs), fun hs => (hframe _).mpr (hk.framed hs)⟩
      spares := fun _ _ hs => hat hs
      held := fun hs => .inl (by simp [hs])
      released := fun hnone hor => hat (hk.tidy _ (hor.resolve_left (absurd hnone)))
      spawned := ⟨js, .of_no_thread jobs hthread⟩ }

/-- A change of the heap in which no frame takes part. -/
theorem calm
    (hk : Holds k h) (hcalm : Calm h h') :
    Stretch k h k h' := by
  obtain ⟨js, hjobs, hthread, -⟩ := hcalm.jobs
  exact of_frames hk hcalm.history hcalm.width hcalm.frames hjobs hthread

/-- An event, with what it makes of the frames that are held.  Others do not take part in it. -/
theorem event
    {e : Event}
    (hk : Holds k h)
    (history : h'.history = e :: h.history)
    (jobs : h'.jobs = h.jobs)
    (width : h'.width = h.width)
    (frames : ∀ f, h'.IsFrame f ↔ h.IsFrame f)
    (moves : ∀ f s, k f = some s → ∃ s', k₁ f = some s' ∧ Move f s e s' ∧
      (h.defersOf f = s.stage.pending → h'.defersOf f = s'.stage.pending))
    (others : ∀ f, k f = none → k₁ f = none ∧ ¬e.Concerns f ∧ h'.defersOf f = h.defersOf f) :
    Stretch k h k₁ h' := by
  have hother {f : ScopeId} {s : Status} (hnone : k f = none) (hs : h.At f s) : h'.At f s := by
    obtain ⟨-, hconcerns, hdefers⟩ := others f hnone
    refine ⟨?_, hdefers.trans hs.2⟩
    rw [history]
    exact .move hs.1 (.other hconcerns)
  have hnone {f : ScopeId} (hf : h.width ≤ f) : k f = none := by
    cases hs : k f with
    | none =>
        rfl
    | some s =>
        exact absurd (hk.framed hs).lt_width (Nat.not_lt.mpr hf)
  have htidy : h'.Tidy := by
    intro f hf
    rw [width] at hf
    exact hother (hnone hf) (hk.tidy f hf)
  -- what is held afterwards was held before
  have hheld {f : ScopeId} {s' : Status} (hs' : k₁ f = some s') :
      ∃ s, k f = some s ∧ h'.At f s' := by
    cases hs : k f with
    | none =>
        rw [(others f hs).1] at hs'
        cases hs'
    | some s =>
        obtain ⟨s'', hs'', hmove, hdefers⟩ := moves f s hs
        cases hs''.symm.trans hs'
        refine ⟨s, rfl, ?_, hdefers (hk.status hs).2⟩
        rw [history]
        exact .move (hk.status hs).1 hmove
  exact
    { grows := ⟨Nat.le_of_eq width.symm, fun f _ => frames f⟩
      holds :=
        { tidy := htidy
          status := fun hs' => (hheld hs').elim fun _ hs => hs.2
          framed := fun hs' => (hheld hs').elim fun _ hs =>
            (frames _).mpr (hk.framed hs.1) }
      spares := fun hn _ hs => hother hn hs
      held := fun hs' => (hheld hs').elim fun s hs => .inl (by simp [hs.1])
      released := fun {f} hn hor => by
        cases hs : k f with
        | none =>
            exact hother hs (hk.tidy f (hor.resolve_left (absurd hs)))
        | some s =>
            obtain ⟨s', hs', -⟩ := moves f s hs
            rw [hs'] at hn
            cases hn
      spawned := ⟨[], .none jobs⟩ }

/-- An event in which no frame takes part. -/
theorem told
    (e : Event) (hk : Holds k h) (he : ∀ f, ¬e.Concerns f) :
    Stretch k h k (h.note e) := by
  refine .event hk (Heap.history_note h e) rfl rfl (fun _ => Iff.rfl) (fun f s hs => ?_) fun f hn => ?_
  · exact ⟨s, hs, .other (he f), fun hd => hd⟩
  · exact ⟨hn, he f, rfl⟩

/-- An event in which only one frame takes part. -/
theorem own
    {e : Event} {f : ScopeId} {s s' : Status}
    (hk : Holds k h)
    (hf : k f = some s)
    (hmove : Move f s e s')
    (others : ∀ g, g ≠ f → ¬e.Concerns g)
    (history : h'.history = e :: h.history)
    (jobs : h'.jobs = h.jobs)
    (width : h'.width = h.width)
    (frames : ∀ g, h'.IsFrame g ↔ h.IsFrame g)
    (defers : h.defersOf f = s.stage.pending → h'.defersOf f = s'.stage.pending)
    (spared : ∀ g, g ≠ f → h'.defersOf g = h.defersOf g) :
    Stretch k h (k.set f (some s')) h' := by
  refine event hk history jobs width frames (fun g t ht => ?_) fun g hn => ?_
  · by_cases hg : g = f
    · subst hg
      cases hf.symm.trans ht
      exact ⟨s', k.set_same _ _, hmove, defers⟩
    · refine ⟨t, ?_, .other (others g hg), fun hd => ?_⟩
      · rw [k.set_of_ne _ hg]
        exact ht
      · rw [spared g hg]
        exact hd
  · have hg : g ≠ f := by
      rintro rfl
      rw [hf] at hn
      cases hn
    refine ⟨?_, others g hg, spared g hg⟩
    rw [k.set_of_ne _ hg]
    exact hn

/-- A frame that is idle may be let go. -/
theorem release
    {f : ScopeId}
    (hk : Holds k h) (hf : k f = some .idle) :
    Stretch k h (k.set f none) h where
  grows := .refl h
  holds :=
    { tidy := hk.tidy
      status := fun {g s} hs => by
        by_cases hg : g = f
        · subst hg
          simp at hs
        · rw [k.set_of_ne none hg] at hs
          exact hk.status hs
      framed := fun {g s} hs => by
        by_cases hg : g = f
        · subst hg
          simp at hs
        · rw [k.set_of_ne none hg] at hs
          exact hk.framed hs }
  spares _ _ hs := hs
  held {g s} hs := by
    by_cases hg : g = f
    · subst hg
      simp at hs
    · rw [k.set_of_ne none hg] at hs
      exact .inl (by simp [hs])
  released {g} hnone hor := by
    by_cases hg : g = f
    · subst hg
      exact hk.status hf
    · rw [k.set_of_ne none hg] at hnone
      exact hk.tidy g (hor.resolve_left (absurd hnone))
  spawned := ⟨[], .none rfl⟩

/-- What a scope is after one was added. -/
theorem scope_add
    (s : Scopes) (sc : Scope) (id : ScopeId) :
    (s.add sc).2.scope id = if id = s.items.size then sc else s.scope id := by
  simp only [Scopes.add, Scopes.scope, Array.getD_eq_getD_getElem?, Array.getElem?_push]
  split <;> simp_all

@[simp] theorem scope_add_self
    (s : Scopes) (sc : Scope) :
    (s.add sc).2.scope s.items.size = sc := by
  rw [scope_add]
  exact if_pos rfl

/-- A scope is added that has no deferred calls; the jobs may be those of new threads. -/
theorem added
    {s : Scope}
    (hk : Holds k h)
    (hs : ∀ frame, s.frame = some frame → frame.defers = [])
    (scopes : h'.scopes = (h.scopes.add s).2)
    (history : h'.history = h.history)
    (spawned : ∃ js, Spawned k h h' js) :
    Stretch k h k h' := by
  have hwidth : h'.width = h.width + 1 := by
    simp [Heap.width, scopes, Scopes.add]
  have hscope (f : ScopeId) (hf : f ≠ h.width) : h'.scopes.scope f = h.scopes.scope f := by
    rw [scopes, scope_add]
    exact if_neg hf
  have hat {f : ScopeId} {st : Status} (hf : f ≠ h.width) (hst : h.At f st) : h'.At f st := by
    refine ⟨history ▸ hst.1, ?_⟩
    rw [Heap.defersOf, hscope f hf]
    exact hst.2
  have hnew : h'.At h.width .idle := by
    refine ⟨history ▸ (hk.tidy _ (Nat.le_refl _)).1, ?_⟩
    have hsame : h'.scopes.scope h.width = s := by
      rw [scopes]
      exact scope_add_self _ _
    rw [Heap.defersOf, hsame]
    cases hframe : s.frame with
    | none =>
        rfl
    | some frame =>
        exact hs frame hframe
  have hidle {f : ScopeId} (hf : h.width ≤ f) : h'.At f .idle := by
    by_cases heq : f = h.width
    · subst heq
      exact hnew
    · exact hat heq (hk.tidy f hf)
  have hold {f : ScopeId} {st : Status} (hs : k f = some st) : f ≠ h.width :=
    Nat.ne_of_lt (hk.framed hs).lt_width
  have hframe {f : ScopeId} (hf : f ≠ h.width) : h'.IsFrame f ↔ h.IsFrame f := by
    rw [Heap.IsFrame, Heap.IsFrame, hscope f hf]
  exact
    { grows := ⟨by omega, fun f hf => hframe (Nat.ne_of_lt hf)⟩
      holds :=
        { tidy := fun f hf => hidle (by rw [hwidth] at hf; exact Nat.le_of_succ_le hf)
          status := fun hs => hat (hold hs) (hk.status hs)
          framed := fun hs => (hframe (hold hs)).mpr (hk.framed hs) }
      spares := fun _ hf hs => hat (Nat.ne_of_lt hf) hs
      held := fun hs => .inl (by simp [hs])
      released := fun hnone hor => hidle (hor.resolve_left (absurd hnone))
      spawned := spawned }

/-- A thread holds a frame that it has opened. -/
theorem opened
    {s : Scope} {frame : Frame}
    (hk : Holds k h)
    (hs : s.frame = some frame)
    (hdefers : frame.defers = []) :
    Stretch k h (k.set h.width (some .idle)) { h with scopes := (h.scopes.add s).2 } := by
  have hadd : Stretch k h k { h with scopes := (h.scopes.add s).2 } := by
    refine added hk (fun frame' hframe' => ?_) rfl rfl ⟨[], .none rfl⟩
    cases hs.symm.trans hframe'
    exact hdefers
  have hframe : Heap.IsFrame { h with scopes := (h.scopes.add s).2 } h.width := by
    simp [Heap.IsFrame, Heap.width, hs]
  have hidle := hadd.released hk.free_width (.inr (Nat.le_refl _))
  exact
    { grows := hadd.grows
      holds :=
        { tidy := hadd.holds.tidy
          status := fun {f st} hst => by
            by_cases hf : f = h.width
            · subst hf
              cases (k.set_same _ _).symm.trans hst
              exact hidle
            · rw [k.set_of_ne _ hf] at hst
              exact hadd.holds.status hst
          framed := fun {f st} hst => by
            by_cases hf : f = h.width
            · subst hf
              exact hframe
            · rw [k.set_of_ne _ hf] at hst
              exact hadd.holds.framed hst }
      spares := hadd.spares
      held := fun {f st} hst => by
        by_cases hf : f = h.width
        · exact .inr (Nat.le_of_eq hf.symm)
        · rw [k.set_of_ne _ hf] at hst
          exact hadd.held hst
      released := fun {f} hn hor => by
        by_cases hf : f = h.width
        · subst hf
          simp at hn
        · rw [k.set_of_ne _ hf] at hn
          exact hadd.released hn hor
      spawned := ⟨[], .none rfl⟩ }

end Stretch

/-- The protocol of frames. -/
def frames : Protocol Holding where
  inv := Holds
  along := Heap.Grows
  moves := Stretch
  along_refl := Heap.Grows.refl
  along_trans := Heap.Grows.trans
  moves_refl := Stretch.refl
  moves_trans := Stretch.trans
  moves_along := Stretch.grows
  moves_inv := Stretch.holds

end ScriptEngine
