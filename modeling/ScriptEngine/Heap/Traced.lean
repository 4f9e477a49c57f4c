/-!
# Traced states

What something is now, and all that it was before.  The earlier states are only told, by a
proposition: a program cannot ask for them, and nothing is kept of them when it runs.

* `Trail` tells the earlier states, `Traced` adds the present one, and `Traced.change` is the way
  from one state to the next.
* `Traced.Kept`: every two states of a trail are related, the earlier one to the later one.  A
  change keeps a transitive relation if it relates the present state to the new one.
-/

namespace ScriptEngine

/-- The states that something was in, the last one first. -/
structure Trail (α : Type) where
  told : List α → Prop
  exact_ : ∃ as, ∀ bs, told bs ↔ bs = as

namespace Trail

variable {α : Type}

/-- Nothing has been before. -/
def start : Trail α := ⟨(· = []), [], fun _ => Iff.rfl⟩

/-- One more state belongs to the past. -/
def after (t : Trail α) (a : α) : Trail α where
  told bs := ∃ as, t.told as ∧ bs = a :: as
  exact_ := by
    obtain ⟨as, has⟩ := t.exact_
    refine ⟨a :: as, fun bs => ⟨?_, ?_⟩⟩
    · rintro ⟨cs, hcs, rfl⟩
      rw [(has cs).1 hcs]
    · rintro rfl
      exact ⟨as, (has as).2 rfl, rfl⟩

/-- The list of states that a trail tells. -/
noncomputable def states (t : Trail α) : List α := t.exact_.choose

theorem states_eq {t : Trail α} {as : List α} (has : t.told as) : t.states = as :=
  ((t.exact_.choose_spec as).1 has).symm

theorem told_states (t : Trail α) : t.told t.states := (t.exact_.choose_spec _).2 rfl

/-- A trail of given states. -/
def ofList (as : List α) : Trail α := ⟨(· = as), as, fun _ => Iff.rfl⟩

@[simp] theorem states_ofList (as : List α) : (ofList as).states = as := states_eq rfl

/-- Trails differ only in the states that they tell. -/
@[ext] theorem ext {t t' : Trail α} (h : t.states = t'.states) : t = t' := by
  obtain ⟨told, as, has⟩ := t
  obtain ⟨told', as', has'⟩ := t'
  rw [states_eq ((has as).2 rfl), states_eq ((has' as').2 rfl)] at h
  have htold : told = told' := funext fun bs => propext (by rw [has bs, has' bs, h])
  subst htold
  rfl

@[simp] theorem states_start : (start : Trail α).states = [] := states_eq rfl

@[simp] theorem states_after (t : Trail α) (a : α) : (t.after a).states = a :: t.states :=
  states_eq ⟨t.states, t.told_states, rfl⟩

end Trail

/-- What something is, and what it was. -/
structure Traced (α : Type) where
  now : α
  past : Trail α

namespace Traced

variable {α : Type} {R : α → α → Prop} {t : Traced α}

/-- What something is from its first moment on. -/
def new (a : α) : Traced α := ⟨a, .start⟩

def change (t : Traced α) (f : α → α) : Traced α := ⟨f t.now, t.past.after t.now⟩

instance [Inhabited α] : Inhabited (Traced α) := ⟨new default⟩

@[simp] theorem now_new (a : α) : (new a).now = a := rfl

/-- All states, the present one first. -/
noncomputable def states (t : Traced α) : List α := t.now :: t.past.states

@[simp] theorem states_new (a : α) : (new a).states = [a] := by simp [states, new]

@[simp] theorem states_change (t : Traced α) (f : α → α) :
    (t.change f).states = f t.now :: t.states := by
  simp [states, change]

/-- Each state is related to every later one. -/
def Kept (R : α → α → Prop) (t : Traced α) : Prop :=
  t.states.Pairwise fun later earlier => R earlier later

theorem kept_new (R : α → α → Prop) (a : α) : (new a).Kept R := by
  simp [Kept]

theorem Kept.change {f : α → α} (ht : t.Kept R) (htrans : ∀ {a b c}, R a b → R b c → R a c)
    (hf : R t.now (f t.now)) : (t.change f).Kept R := by
  unfold Kept at ht ⊢
  rw [states_change, List.pairwise_cons]
  refine ⟨fun a ha => ?_, ht⟩
  rcases List.mem_cons.1 ha with rfl | hold
  · exact hf
  · exact htrans ((List.pairwise_cons.1 ht).1 a hold) hf

end Traced
end ScriptEngine
