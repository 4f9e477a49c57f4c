import Mathlib

/-!
# Things and their parts

Values can hold others, and what goes down to the parts of a value is given a depth.

**Depth.**  Things with parts have places in a store, and no more places than the store has can be
come by without coming back to one.  So going down from a thing that is not part of itself ends within
as many steps (`endsWithin_of_acyclic`).
-/

namespace ScriptEngine

variable {α : Type} {parts : α → List α}

/-- Going from a thing to its parts ends within a number of steps. -/
inductive EndsWithin (parts : α → List α) : Nat → α → Prop
  | mk {n : Nat} {v : α} (hparts : ∀ w ∈ parts v, EndsWithin parts n w) :
      EndsWithin parts (n + 1) v

/-- A thing has another as a part, directly or by way of others. -/
def HasWithin (parts : α → List α) : α → α → Prop :=
  Relation.TransGen fun v w => w ∈ parts v

/-- Neither a thing nor any that it has within is part of itself. -/
def AcyclicFrom (parts : α → List α) (v : α) : Prop :=
  ¬ HasWithin parts v v ∧ ∀ w, HasWithin parts v w → ¬ HasWithin parts w w

theorem AcyclicFrom.part
    {v w : α} (hv : AcyclicFrom parts v) (hw : w ∈ parts v) :
    AcyclicFrom parts w :=
  ⟨hv.2 w (.single hw), fun u hu => hv.2 u (.head hw hu)⟩

theorem EndsWithin.mono
    {n m : Nat} {v : α} (hv : EndsWithin parts n v) (hle : n ≤ m) :
    EndsWithin parts m v := by
  induction hv generalizing m with
  | mk _ ih =>
      obtain ⟨m, rfl⟩ := Nat.exists_eq_succ_of_ne_zero (Nat.ne_zero_of_lt hle)
      exact .mk fun w hw => ih w hw (Nat.le_of_succ_le_succ hle)

/-- Where going down ends, nothing is part of itself. -/
theorem EndsWithin.acyclicFrom
    {n : Nat} {v : α} (hv : EndsWithin parts n v) :
    AcyclicFrom parts v := by
  induction hv with
  | @mk n v _ ih =>
      have hself : ¬ HasWithin parts v v := by
        intro hcycle
        obtain ⟨w, hw, hback⟩ := Relation.TransGen.head'_iff.mp hcycle
        exact (ih w hw).1 (.tail' hback hw)
      refine ⟨hself, fun u hu hcycle => ?_⟩
      obtain ⟨w, hw, hreach⟩ := Relation.TransGen.head'_iff.mp hu
      rcases Relation.reflTransGen_iff_eq_or_transGen.mp hreach with rfl | hreach
      · exact (ih u hw).1 hcycle
      · exact (ih w hw).2 u hreach hcycle

/-- Things with parts have places, and the place of a thing tells its parts. -/
structure Placed (parts : α → List α) (good : α → Prop) (place : α → Nat) (bound : Nat) : Prop where
  part : ∀ v, good v → ∀ w ∈ parts v, good w
  lt : ∀ v, good v → parts v ≠ [] → place v < bound
  parts_eq : ∀ v w, good v → good w → parts v ≠ [] → parts w ≠ [] → place v = place w →
    parts v = parts w

variable {good : α → Prop} {place : α → Nat} {bound : Nat}

/-- A thing that is not part of itself is nested no deeper than there are places that it has not come
by. -/
theorem endsWithin_of_seen
    (hplaced : Placed parts good place bound) {n : Nat} {v : α} (hgood : good v)
    (hv : AcyclicFrom parts v) (seen : List Nat) (hnodup : seen.Nodup)
    (hseen : ∀ p ∈ seen, p < bound ∧ ∃ u, good u ∧ parts u ≠ [] ∧ place u = p ∧
      HasWithin parts u v)
    (hn : bound < seen.length + n) :
    EndsWithin parts n v := by
  induction n generalizing v seen with
  | zero =>
      have hsub : seen ⊆ List.range bound := fun p hp => List.mem_range.mpr (hseen p hp).1
      have hle := (hnodup.subperm hsub).length_le
      rw [List.length_range] at hle
      omega
  | succ n ih =>
      refine .mk fun w hw => ?_
      have hne : parts v ≠ [] := List.ne_nil_of_mem hw
      have hnew : place v ∉ seen := by
        intro hmem
        obtain ⟨-, u, hu, hune, hplace, hreach⟩ := hseen _ hmem
        obtain ⟨x, hx, hrest⟩ := Relation.TransGen.head'_iff.mp hreach
        rw [hplaced.parts_eq u v hu hgood hune hne hplace] at hx
        exact hv.1 (Relation.TransGen.head' hx hrest)
      refine ih (hplaced.part v hgood w hw) (hv.part hw) (place v :: seen)
        (List.nodup_cons.mpr ⟨hnew, hnodup⟩) ?_ ?_
      · intro p hp
        rcases List.mem_cons.mp hp with rfl | hp
        · exact ⟨hplaced.lt v hgood hne, v, hgood, hne, rfl, .single hw⟩
        · obtain ⟨hlt, u, hu, hune, hplace, hreach⟩ := hseen p hp
          exact ⟨hlt, u, hu, hune, hplace, hreach.tail hw⟩
      · rw [List.length_cons]
        omega

theorem endsWithin_of_acyclic
    (hplaced : Placed parts good place bound) {v : α} (hgood : good v) (hv : AcyclicFrom parts v) :
    EndsWithin parts (bound + 1) v := by
  refine endsWithin_of_seen hplaced hgood hv [] List.nodup_nil (by simp) ?_
  rw [List.length_nil]
  omega

end ScriptEngine
