import ScriptEngine.Proofs.Stores.Agreement

/-!
# Paths of changes

A `Path` is a sequence of changes of one thread.  Whatever the other threads hold, it still agrees
with the world and the heap when one of them has gone a path (`Path.agree`).

The protocol `stores` lets a thread change the heap along paths only.  In the course of time instances
and static fields are only added, and what they were before is told for good (`Heap.Continues`).
-/

namespace ScriptEngine

/-! ### The course of time -/

/-- What is traced stays in its place, with all that it was. -/
structure Traced.Continues {α : Type} [Inhabited α] (ts ts' : Array (Traced α)) : Prop where
  size : ts.size ≤ ts'.size
  states : ∀ id < ts.size, (ts.getD id default).states <:+ (ts'.getD id default).states

namespace Traced.Continues

variable {α : Type} [Inhabited α] {ts ts' ts'' : Array (Traced α)}

theorem refl
    (ts : Array (Traced α)) :
    Continues ts ts := by
  exact ⟨Nat.le_refl _, fun _ _ => List.suffix_rfl⟩

theorem trans
    (h₁ : Continues ts ts') (h₂ : Continues ts' ts'') :
    Continues ts ts'' := by
  refine ⟨h₁.size.trans h₂.size, fun id hid => ?_⟩
  exact (h₁.states id hid).trans (h₂.states id (hid.trans_le h₁.size))

theorem push
    (ts : Array (Traced α)) (t : Traced α) :
    Continues ts (ts.push t) := by
  refine ⟨by simp, fun id hid => ?_⟩
  have hsame : (ts.push t).getD id default = ts.getD id default := by
    rw [getD_push, if_neg hid.ne]
  exact hsame ▸ List.suffix_rfl

theorem modify
    (ts : Array (Traced α)) (i : Nat) (f : α → α) :
    Continues ts (ts.modify i (·.change f)) := by
  refine ⟨by simp, fun id hid => ?_⟩
  rw [getD_modify]
  split
  · rw [Traced.states_change]
    exact List.suffix_cons _ _
  · exact List.suffix_rfl

end Traced.Continues

/-- Instances and static fields go on from a heap. -/
structure Heap.Continues (h h' : Heap) : Prop where
  objects : Traced.Continues h.objects h'.objects
  statics : Traced.Continues h.statics h'.statics

namespace Heap.Continues

variable {h h' h'' : Heap}

theorem of_eq
    (objects : h'.objects = h.objects) (statics : h'.statics = h.statics) :
    h.Continues h' := by
  refine ⟨?_, ?_⟩
  · rw [objects]
    exact .refl _
  · rw [statics]
    exact .refl _

theorem trans
    (h₁ : h.Continues h') (h₂ : h'.Continues h'') :
    h.Continues h'' := by
  exact ⟨h₁.objects.trans h₂.objects, h₁.statics.trans h₂.statics⟩

theorem modifyObject
    (h : Heap) (id : Nat) (f : ObjectState → ObjectState) :
    h.Continues (h.modifyObject id f) := by
  exact ⟨.modify _ _ _, .refl _⟩

theorem tellReceiver
    (h : Heap) (env : Env) (e : ClassDef → BuildEvent) :
    h.Continues (h.tellReceiver env e) := by
  unfold Heap.tellReceiver
  split
  · exact modifyObject h _ _
  · exact .of_eq rfl rfl

end Heap.Continues

/-- Whatever a thread does, what has been is told for good. -/
theorem Change.continues
    {k k' : Hold} {w w' : World} {h h' : Heap} (hc : Change k w h k' w' h') :
    h.Continues h' := by
  cases hc with
  | quiet hq =>
      exact .of_eq hq.objects hq.statics
  | learn | notice | openCollection | elements | openChannel | hub | leaveStatics =>
      exact .of_eq rfl rfl
  | record | start =>
      exact ⟨.push _ _, .refl _⟩
  | begin =>
      exact .tellReceiver _ _ _
  | fill =>
      exact (Heap.Continues.modifyObject _ _ _).trans (.tellReceiver _ _ _)
  | enter | write | complete | finish =>
      exact .modifyObject _ _ _
  | openStatics | openClass | openInterface =>
      exact ⟨.refl _, .push _ _⟩
  | declare | closeStatics | assign =>
      exact ⟨.refl _, .modify _ _ _⟩

/-! ### Paths -/

/-- A sequence of changes of one thread. -/
inductive Path : Hold → World → Heap → Hold → World → Heap → Prop
  | refl {k w h} : Path k w h k w h
  | step {k w h k' w' h' k'' w'' h''} :
      Path k w h k' w' h' → Change k' w' h' k'' w'' h'' → Path k w h k'' w'' h''

namespace Path

variable {k k' k'' : Hold} {ks : List Hold} {w w' w'' : World} {h h' h'' : Heap}

theorem one
    (hc : Change k w h k' w' h') :
    Path k w h k' w' h' := by
  exact .step .refl hc

theorem trans
    (h₁ : Path k w h k' w' h') (h₂ : Path k' w' h' k'' w'' h'') :
    Path k w h k'' w'' h'' := by
  induction h₂ with
  | refl =>
      exact h₁
  | step _ hc ih =>
      exact .step ih hc

/-- What the threads hold still agrees at the end of a path of one of them. -/
theorem agree
    (hp : Path k w h k' w' h') (hs : Agree (k :: ks) w h) :
    Agree (k' :: ks) w' h' := by
  induction hp with
  | refl =>
      exact hs
  | step _ hc ih =>
      exact ih.change hc

theorem continues
    (hp : Path k w h k' w' h') :
    h.Continues h' := by
  induction hp with
  | refl =>
      exact .of_eq rfl rfl
  | step _ hc ih =>
      exact ih.trans hc.continues

/-- A path leads to a world with all the facts of the one where it begins. -/
theorem grows
    (hp : Path k w h k' w' h') :
    w ⊆ w' := by
  induction hp with
  | refl =>
      exact Set.Subset.rfl
  | step _ hc ih =>
      refine ih.trans ?_
      cases hc with
      | notice | record | start | openCollection | openChannel | openClass | openInterface =>
          exact Set.subset_union_left
      | quiet | learn | begin | fill | enter | write | complete | finish | elements | hub | openStatics
        | declare | closeStatics | leaveStatics | assign =>
          exact Set.Subset.rfl

end Path

/-! ### The protocol -/

/-- A thread changes the heap along paths.  What the other threads do is no concern of it, as they
keep what it holds. -/
def stores : Protocol Hold where
  inv k h := ∃ w, Agree [k] w h
  along := Heap.Continues
  moves k h k' h' := (∃ w', Agree [k'] w' h') ∧ h.Continues h' ∧
    ∀ w, Agree [k] w h → ∃ w', Path k w h k' w' h'
  along_refl _ := .of_eq rfl rfl
  along_trans h₁ h₂ := h₁.trans h₂
  moves_refl hinv := ⟨hinv, .of_eq rfl rfl, fun w _ => ⟨w, .refl⟩⟩
  moves_trans h₁ h₂ := by
    refine ⟨h₂.1, h₁.2.1.trans h₂.2.1, fun w hs => ?_⟩
    obtain ⟨w', hp⟩ := h₁.2.2 w hs
    obtain ⟨w'', hp'⟩ := h₂.2.2 w' (hp.agree hs)
    exact ⟨w'', hp.trans hp'⟩
  moves_along hm := hm.2.1
  moves_inv hm := hm.1

/-- A path from every world that a thread agrees with is a move of the thread. -/
theorem moves_of_path
    {k k' : Hold} {h h' : Heap} (hinv : stores.inv k h)
    (hpath : ∀ w, Agree [k] w h → ∃ w', Path k w h k' w' h') :
    stores.moves k h k' h' := by
  obtain ⟨w, hs⟩ := hinv
  obtain ⟨w', hp⟩ := hpath w hs
  exact ⟨⟨w', hp.agree hs⟩, hp.continues, hpath⟩

end ScriptEngine
