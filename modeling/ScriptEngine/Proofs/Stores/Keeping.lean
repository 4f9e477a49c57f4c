import ScriptEngine.Proofs.Stores.Path

/-!
# Computations that keep the stores

`Keeps S x Q` says that a thread which knows the facts `S` may perform `x`: it changes the heap along
a path, it ends what it begins, it knows the facts that the result tells, and `Q` holds of the result.
Each operation of `Eval` has a rule; the functions of the evaluator are put together from these.

What `x` is given must be known, and what the first part of a sequence tells is known to the second
part.  So a value that a program can ever get hold of is known.
-/

namespace ScriptEngine

/-- How an evaluation ends: what was begun is ended, and what is told is known. -/
structure Ends {α : Type} [Carrier α] (k : Hold) (Q : α → Prop) (o : Except Signal α) (k' : Hold) :
    Prop where
  known : k.known ⊆ k'.known
  building : k'.building = k.building
  declaring : k'.declaring = k.declaring
  told : Knows k'.known o
  holds : ∀ a, o = .ok a → Q a

/-- A computation that a thread may perform which knows some facts. -/
def Keeps {α : Type} [Carrier α] (S : World) (x : Eval α) (Q : α → Prop := fun _ => True) : Prop :=
  ∀ c k h, S ⊆ k.known → stores.inv k h → stores.Follows (Ends k Q) (x c h) k h

namespace Ends

variable {α β : Type} [Carrier α] [Carrier β] {k k' k'' : Hold} {Q : α → Prop} {R : β → Prop}

theorem trans
    {o : Except Signal α} {o' : Except Signal β} (h₁ : Ends k Q o k') (h₂ : Ends k' R o' k'') :
    Ends k R o' k'' where
  known := h₁.known.trans h₂.known
  building := h₂.building.trans h₁.building
  declaring := h₂.declaring.trans h₁.declaring
  told := h₂.told
  holds := h₂.holds

/-- A signal ends a sequence. -/
theorem error
    {s : Signal} (hs : Ends k Q (.error s) k') :
    Ends k R (.error s) k' := by
  refine ⟨hs.known, hs.building, hs.declaring, hs.told, fun b hb => ?_⟩
  cases hb

end Ends

/-! ### Changes that concern scopes only, or nothing of interest -/

namespace Quiet

variable {w : World} {h h' : Heap}

/-- A change that leaves the scopes and the declared types alone. -/
theorem of_scopes_eq
    (scopes : h'.scopes = h.scopes) (objects : h'.objects = h.objects)
    (collections : h'.collections = h.collections) (hub : h'.hub = h.hub)
    (statics : h'.statics = h.statics) (known : Knows w h → Knows w h')
    (registry : h'.registry = h.registry) (declared : h'.declared = h.declared) :
    Quiet w h h' where
  objects := objects
  collections := collections
  hub := hub
  statics := statics
  declared := declared
  known := known
  registry hr := registry ▸ hr
  bound hb := .inl ⟨_, scopes ▸ hb⟩
  frames hr := scopes ▸ hr

theorem refl
    (w : World) (h : Heap) :
    Quiet w h h := by
  exact of_scopes_eq rfl rfl rfl rfl rfl id rfl rfl

theorem note
    (w : World) (h : Heap) (e : Event) :
    Quiet w h (h.note e) := by
  exact of_scopes_eq rfl rfl rfl rfl rfl id rfl rfl

/-- A change of the scopes. -/
theorem of_scopes
    {s : Scopes} (known : Knows w h → Knows w s)
    (bound : ∀ {id name b}, s.binding? id name = some b →
      (∃ i, h.scopes.binding? i name = some b) ∨ b.Obeys w)
    (frames : ∀ {id r}, h.scopes.receiverAt? id = some r → s.receiverAt? id = some r) :
    Quiet w h { h with scopes := s } where
  objects := rfl
  collections := rfl
  hub := rfl
  statics := rfl
  declared := rfl
  known hh := hh.with_scopes (known hh)
  registry := id
  bound := bound
  frames := frames

end Quiet

/-! ### Rules -/

namespace Keeps

variable {S S' : World} {α β σ : Type} [Carrier α] [Carrier β] [Carrier σ]
variable {Q Q' : α → Prop} {R : β → Prop} {x : Eval α}

theorem mono
    (hx : Keeps S x Q) (hS : S ⊆ S') :
    Keeps S' x Q := by
  intro c k h hk hinv
  exact hx c k h (hS.trans hk) hinv

/-- What is known besides does no harm. -/
theorem more
    (hx : Keeps S x Q) (T : World) :
    Keeps (S ∪ T) x Q := by
  exact hx.mono Set.subset_union_left

theorem imp
    (hx : Keeps S x Q) (hq : ∀ a, Q a → Q' a) :
    Keeps S x Q' := by
  intro c k h hk hinv
  refine (hx c k h hk hinv).weaken fun o k' ho => ?_
  exact ⟨ho.known, ho.building, ho.declaring, ho.told, fun a ha => hq a (ho.holds a ha)⟩

theorem plain
    (hx : Keeps S x Q) :
    Keeps S x := by
  exact hx.imp fun _ _ => trivial

theorem pure
    {a : α} (ha : Knows S a) (hq : Q a) :
    Keeps S (Pure.pure a) Q := by
  intro c k h hk hinv
  refine ⟨k, stores.moves_refl hinv, Set.Subset.rfl, rfl, rfl, ha.mono hk, fun b hb => ?_⟩
  cases hb
  exact hq

/-- The second part of a sequence knows what the first part tells. -/
theorem bind
    {f : α → Eval β} (hx : Keeps S x Q) (hf : ∀ a, Q a → Keeps (S ∪ carried a) (f a) R) :
    Keeps S (x >>= f) R := by
  intro c k h hk hinv
  rw [Eval.bind_apply]
  refine (hx c k h hk hinv).bind (fun a k' h' _ hinv' ha => ?_) fun s k' hs => hs.error
  have htold : carried a ⊆ k'.known := ha.told
  have hnext := hf a (ha.holds a rfl) c k' h' (Set.union_subset (hk.trans ha.known) htold) hinv'
  exact hnext.weaken fun o k'' ho => ha.trans ho

theorem andThen
    {f : α → Eval β} (hx : Keeps S x) (hf : ∀ a, Keeps (S ∪ carried a) (f a) R) :
    Keeps S (x >>= f) R := by
  exact hx.bind fun a _ => hf a

/-- What the first part of a sequence tells need not be remembered. -/
theorem skip
    {f : α → Eval β} (hx : Keeps S x) (hf : ∀ a, Keeps S (f a) R) :
    Keeps S (x >>= f) R := by
  exact hx.andThen fun a => (hf a).mono Set.subset_union_left

theorem ite
    {p : Prop} [Decidable p] {y : Eval α} (hx : p → Keeps S x Q) (hy : ¬p → Keeps S y Q) :
    Keeps S (if p then x else y) Q := by
  split
  · next hp => exact hx hp
  · next hp => exact hy hp

/-! ### Signals -/

theorem raise
    {s : Signal} (hs : Knows S s) :
    Keeps S (Eval.raise s : Eval α) Q := by
  intro c k h hk hinv
  refine ⟨k, stores.moves_refl hinv, Set.Subset.rfl, rfl, rfl, hs.mono hk, fun b hb => ?_⟩
  cases hb

theorem giveUp : Keeps S (Eval.giveUp : Eval α) Q := by
  intro c k h _ _
  trivial

/-! ### Changes of the heap -/

/-- A path that brings what it tells into the world. -/
theorem moves
    {k : Hold} {h h' : Heap} {u : World} (hinv : stores.inv k h)
    (hpath : ∀ w, Agree [k] w h → ∃ w', Path k w h k w' h' ∧ u ⊆ w') :
    stores.moves k h { k with known := k.known ∪ u } h' := by
  refine moves_of_path hinv fun w hs => ?_
  obtain ⟨w', hp, hu⟩ := hpath w hs
  exact ⟨w', hp.step (.learn hu)⟩

/-- An evaluation that ends after a path. -/
theorem ended
    {k : Hold} {h h' : Heap} {a : α} (hk : S ⊆ k.known) (hinv : stores.inv k h)
    (hpath : ∀ w, S ⊆ w → Agree [k] w h → ∃ w', Path k w h k w' h' ∧ Knows w' a ∧ Q a) :
    stores.Follows (Ends k Q) (.value a h') k h := by
  have hS {w : World} (hs : Agree [k] w h) : S ⊆ w := hk.trans (hs.known k List.mem_cons_self)
  refine ⟨{ k with known := k.known ∪ carried a }, moves hinv fun w hs => ?_,
    Set.subset_union_left, rfl, rfl, Set.subset_union_right, fun b hb => ?_⟩
  · obtain ⟨w', hp, hknown, -⟩ := hpath w (hS hs) hs
    exact ⟨w', hp, hknown⟩
  · cases hb
    obtain ⟨w, hs⟩ := hinv
    obtain ⟨w', -, -, hq⟩ := hpath w (hS hs) hs
    exact hq

/-- A change of the heap that is a path. -/
theorem change
    {f : Heap → α × Heap}
    (hf : ∀ k w h, S ⊆ w → Agree [k] w h →
      ∃ w', Path k w h k w' (f h).2 ∧ Knows w' (f h).1 ∧ Q (f h).1) :
    Keeps S (Eval.change f) Q := by
  intro c k h hk hinv
  rw [Eval.change_apply]
  exact ended hk hinv fun w hS hs => hf k w h hS hs

theorem modify
    {f : Heap → Heap}
    (hf : ∀ k w h, S ⊆ w → Agree [k] w h → ∃ w', Path k w h k w' (f h)) :
    Keeps S (Eval.modify f) := by
  refine change (f := fun h => ((), f h)) fun k w h hS hs => ?_
  obtain ⟨w', hp⟩ := hf k w h hS hs
  exact ⟨w', hp, knows_unit (), trivial⟩

/-- A change of anything but instances, collections, channels and static fields. -/
theorem quietly
    {f : Heap → α × Heap}
    (hf : ∀ w h, S ⊆ w → Fits w h → Quiet w h (f h).2 ∧ Knows w (f h).1 ∧ Q (f h).1) :
    Keeps S (Eval.change f) Q := by
  refine change fun k w h hS hs => ?_
  obtain ⟨hquiet, hknown, hq⟩ := hf w h hS hs.fits
  exact ⟨w, .one (.quiet hquiet), hknown, hq⟩

theorem modifyQuietly
    {f : Heap → Heap} (hf : ∀ w h, S ⊆ w → Fits w h → Quiet w h (f h)) :
    Keeps S (Eval.modify f) := by
  exact modify fun k w h hS hs => ⟨w, .one (.quiet (hf w h hS hs.fits))⟩

theorem note
    (e : Event) :
    Keeps S (Eval.note e) := by
  exact modifyQuietly fun w h _ _ => .note w h e

/-- A heap that is looked at fits a world with all that is known. -/
def Seen (S : World) (h : Heap) : Prop := ∃ w, S ⊆ w ∧ Fits w h

theorem heap : Keeps S Eval.heap (Seen S) := by
  exact quietly (f := fun h => (h, h)) fun w h hS hf => ⟨.refl w h, hf.known, w, hS, hf⟩

/-! ### Faults -/

theorem fault
    (c : Cause) :
    Keeps S (Eval.fault c : Eval α) Q := by
  exact (note _).andThen fun _ => raise knows_fault

theorem throwValue
    {e : Exception} (he : Knows S e.value) :
    Keeps S (Eval.throwValue e : Eval α) Q := by
  exact (note _).skip fun _ => raise he

/-- What comes after a check that may fail. -/
theorem guarded
    {p : Prop} [Decidable p] {f : Unit → Eval α} (c : Cause) (hf : Keeps S (f ()) Q) :
    Keeps S (if p then Eval.fault c >>= f else f ()) Q := by
  refine ite (fun _ => ?_) fun _ => hf
  exact (fault c).bind fun _ (hnever : False) => hnever.elim

theorem unlessFault
    (c : Option Cause) :
    Keeps S (Eval.unlessFault c) fun _ => c = none := by
  cases c with
  | none =>
      exact pure (knows_unit _) rfl
  | some c =>
      exact fault c

theorem ofExcept
    {r : Except Cause α} (hr : Knows S r) :
    Keeps S (Eval.ofExcept r) fun a => r = .ok a := by
  cases r with
  | ok a =>
      exact pure hr rfl
  | error c =>
      exact fault c

/-! ### Outcomes -/

theorem attempt
    (hx : Keeps S x Q) :
    Keeps S (Eval.attempt x) fun o => ∀ a, o = .ok a → Q a := by
  intro c k h hk hinv
  rw [Eval.attempt_apply]
  refine (hx c k h hk hinv).attempt.weaken fun o k' ho => ?_
  obtain ⟨outcome, rfl, hends⟩ := ho
  refine ⟨hends.known, hends.building, hends.declaring, hends.told, fun b hb => ?_⟩
  cases hb
  exact hends.holds

theorem ofOutcome
    {o : Except Signal α} (ho : Knows S o) (hq : ∀ a, o = .ok a → Q a) :
    Keeps S (Eval.ofOutcome o) Q := by
  cases o with
  | ok a =>
      exact pure ho (hq a rfl)
  | error s =>
      exact raise ho

theorem supersede
    {γ : Type} (o : Except Signal γ) :
    Keeps S (Eval.supersede o) := by
  unfold Eval.supersede
  split
  · exact note _
  · exact pure (knows_unit _) trivial

theorem catching
    {clauses : List (CatchClause Stmt)} {handler : CatchClause Stmt → Exception → Eval α}
    (hx : Keeps S x Q) (hhandler : ∀ c e, Keeps (S ∪ carried e) (handler c e) Q) :
    Keeps S (Eval.catching clauses x handler) Q := by
  refine (note _).skip fun _ => (attempt hx).bind fun o ho => ?_
  split
  · next e =>
      refine heap.plain.skip fun h => ?_
      split
      · exact (note _).skip fun _ => hhandler _ e
      · exact (note _).skip fun _ => raise (Knows.self S e)
  · exact (note _).skip fun _ => ofOutcome (Knows.self _ _) ho

theorem diverting
    {handler : Exception → Eval α} (hx : Keeps S x Q)
    (hhandler : ∀ e, Keeps (S ∪ carried e) (handler e) Q) :
    Keeps S (Eval.diverting x handler) Q := by
  refine (note _).skip fun _ => (attempt hx).bind fun o ho => ?_
  split
  · exact (note _).skip fun _ => hhandler _
  · exact (note _).skip fun _ => ofOutcome (Knows.self _ _) ho

theorem mapFault
    {f : Fault → Fault} (hx : Keeps S x Q) :
    Keeps S (Eval.mapFault f x) Q := by
  intro c k h hk hinv
  refine (hx c k h hk hinv).mapFault fun e k' he => ?_
  exact ⟨he.known, he.building, he.declaring, he.told, fun b hb => by cases hb⟩

theorem within
    {frame : ScopeId} (hx : Keeps S x Q) :
    Keeps S (Eval.within frame x) Q := by
  intro c k h hk hinv
  exact hx _ k h hk hinv

theorem currentFrame : Keeps S Eval.currentFrame := by
  intro c k h hk hinv
  exact pure (a := c.frame) (by cases c.frame <;> simp) trivial c k h hk hinv

theorem tracked
    {a : Act} {flow : α → Flow} (hx : Keeps S x Q) :
    Keeps S (Eval.tracked a flow x) Q := by
  refine currentFrame.skip fun frame => (note _).skip fun _ => (attempt hx).bind fun o ho => ?_
  exact (note _).skip fun _ => ofOutcome (Knows.self _ _) ho

theorem admitted
    (hx : Keeps S x Q) :
    Keeps S (Eval.admitted x) Q := by
  intro c k h hk hinv
  unfold Eval.admitted
  split
  · exact ((note _).skip fun _ => fault _) c k h hk hinv
  · exact hx _ k h hk hinv

theorem deeper
    {i : Invocation} {args : List Value} {x : Eval Value} {Q : Value → Prop} (hx : Keeps S x Q) :
    Keeps S (Eval.deeper i args x) Q := by
  refine (note _).skip fun _ => (attempt (admitted hx)).bind fun o ho => ?_
  exact (note _).skip fun _ => ofOutcome (Knows.self _ _) ho

/-! ### Waiting -/

theorem yield : Keeps S Eval.yield := by
  intro c k h hk hinv
  refine ⟨k, stores.moves_refl hinv, fun h' _ hinv' => ?_⟩
  exact pure (knows_unit ()) trivial c k h' hk hinv'

/-- What is waited for is done along a path. -/
theorem await
    {b : Blocker} {step : Heap → Option (α × Heap)}
    (hstep : ∀ k w h a h', S ⊆ w → Agree [k] w h → step h = some (a, h') →
      ∃ w', Path k w h k w' h' ∧ Knows w' a ∧ Q a) :
    Keeps S (Eval.await b step) Q := by
  intro c k h hk hinv
  unfold Eval.await
  split
  · next a h' heq =>
      exact ended hk hinv fun w hS hs => hstep k w h a h' hS hs heq
  · refine ⟨k, stores.moves_refl hinv, fun h₁ _ hinv₁ => ?_⟩
    dsimp only
    split
    · next a h' heq =>
        exact ended hk hinv₁ fun w hS hs => hstep k w h₁ a h' hS hs heq
    · trivial

/-! ### Lists and loops -/

theorem map
    (f : α → β) (hx : Keeps S x Q) (hf : ∀ a, Q a → Knows (S ∪ carried a) (f a) ∧ R (f a)) :
    Keeps S (f <$> x) R := by
  rw [map_eq_pure_bind]
  exact hx.bind fun a ha => pure (hf a ha).1 (hf a ha).2

theorem mapM
    {ι : Type} {f : ι → Eval α} {xs : List ι} (hf : ∀ a ∈ xs, Keeps S (f a) Q) :
    Keeps S (xs.mapM f) fun ys => ∀ y ∈ ys, Q y := by
  induction xs with
  | nil =>
      exact pure knows_nil (by simp)
  | cons a xs ih =>
      rw [List.mapM_cons]
      refine (hf a List.mem_cons_self).bind fun y hy => ?_
      refine ((ih fun b hb => hf b (List.mem_cons_of_mem _ hb)).more _).bind fun ys hys => ?_
      refine pure (by simp) ?_
      simpa using ⟨hy, hys⟩

theorem forM
    {ι : Type} {f : ι → Eval PUnit} {xs : List ι} (hf : ∀ a ∈ xs, Keeps S (f a)) :
    Keeps S (xs.forM f) := by
  induction xs with
  | nil =>
      exact pure (knows_unit _) trivial
  | cons a xs ih =>
      unfold List.forM
      refine (hf a List.mem_cons_self).bind fun _ _ => ?_
      exact (ih fun b hb => hf b (List.mem_cons_of_mem _ hb)).more _

theorem foldlM
    {ι : Type} {f : β → ι → Eval β} {b : β} {xs : List ι} (hb : Knows S b)
    (hf : ∀ T b, S ⊆ T → Knows T b → ∀ a ∈ xs, Keeps T (f b a)) :
    Keeps S (xs.foldlM f b) := by
  induction xs generalizing S b with
  | nil =>
      exact pure hb trivial
  | cons a xs ih =>
      rw [List.foldlM_cons]
      refine (hf S b Set.Subset.rfl hb a List.mem_cons_self).bind fun c _ => ?_
      refine ih (Knows.self _ _) fun T d hT hd e he => ?_
      exact hf T d (Set.subset_union_left.trans hT) hd e (List.mem_cons_of_mem _ he)

theorem filterMapM
    {ι : Type} {f : ι → Eval (Option α)} {xs : List ι}
    (hf : ∀ a ∈ xs, Keeps S (f a) fun o => ∀ y, o = some y → Q y) :
    Keeps S (xs.filterMapM f) fun ys => ∀ y ∈ ys, Q y := by
  unfold List.filterMapM
  suffices h : ∀ T acc, S ⊆ T → Knows T acc → (∀ y ∈ acc, Q y) →
      Keeps T (List.filterMapM.loop f xs acc) fun ys => ∀ y ∈ ys, Q y from
    h S [] Set.Subset.rfl knows_nil (by simp)
  induction xs with
  | nil =>
      intro T acc _ hacc hq
      refine pure ?_ ?_
      · exact hacc.of_subset (by simp)
      · simpa using hq
  | cons a xs ih =>
      intro T acc hT hacc hq
      unfold List.filterMapM.loop
      refine ((hf a List.mem_cons_self).mono hT).bind fun o ho => ?_
      have hrest := ih fun b hb => hf b (List.mem_cons_of_mem _ hb)
      cases o with
      | none =>
          exact hrest _ acc (hT.trans Set.subset_union_left) (hacc.more _) hq
      | some y =>
          refine hrest _ (y :: acc) (hT.trans Set.subset_union_left) ?_ ?_
          · exact knows_cons.mpr ⟨Knows.self T (some y), hacc.more _⟩
          · simpa using ⟨ho y rfl, hq⟩

theorem findM?
    {p : α → Eval Bool} {xs : List α} (hxs : Knows S xs) (hp : ∀ a ∈ xs, Keeps S (p a)) :
    Keeps S (xs.findM? p) := by
  induction xs with
  | nil =>
      exact pure knows_none trivial
  | cons a xs ih =>
      obtain ⟨ha, hrest⟩ := knows_cons.mp hxs
      unfold List.findM?
      refine (hp a List.mem_cons_self).bind fun found _ => ?_
      split
      · exact pure (by simpa using ha.more _) trivial
      · exact (ih hrest fun b hb => hp b (List.mem_cons_of_mem _ hb)).more _

/-- A turn may be given away before what follows. -/
private theorem atStride
    {p : Prop} [Decidable p] {x : Unit → Eval α} (hx : Keeps S (x ())) :
    Keeps S (if p then Eval.yield >>= x else x ()) := by
  split
  · exact yield.andThen fun _ => hx.more _
  · exact hx

/-- Each round of a loop may know no more than was known at first. -/
theorem iterate
    {body : σ → Eval (σ ⊕ α)} (fuel : Nat) (s : σ) (hbody : ∀ s, Keeps S (body s)) :
    Keeps S (Eval.iterate fuel body s) := by
  suffices h : ∀ round s, Keeps S (Eval.iterateFrom body fuel round s) from h 1 s
  induction fuel with
  | zero =>
      intro round s
      exact giveUp
  | succ fuel ih =>
      intro round s
      unfold Eval.iterateFrom
      refine atStride ((hbody s).bind fun next _ => ?_)
      cases next with
      | inl s =>
          exact (ih _ s).more _
      | inr a =>
          exact pure (Knows.self S (Sum.inr a : σ ⊕ α)) trivial

end Keeps

end ScriptEngine
