import Mathlib.Data.List.Forall2
import ScriptEngine.Eval.Threads

/-!
# Laws of evaluations

An evaluation is a tree: it ends, or it waits and goes on with the heap of a later moment.  This
module proves the monad laws of `Eval` by induction on that tree, and shows what each primitive
does with a heap.  Later modules open an evaluation with these equations only.

**Endings.** What can be said of the end of an evaluation depends on the other threads, which change the
heap while it waits.  `Res.Ensures I Q` says that an evaluation ends as `Q` asks if the others leave it a
heap of the kind `I` whenever it goes on.

An evaluation `returns` if it ends with a value, and so neither fails nor lacks fuel.  It `answers` and
`fails` as something asks if that goes for each value and for each signal it may end with, and it
`leaves` a heap of a kind if it does so in either way.
-/

namespace ScriptEngine

namespace Res

variable {α β γ : Type}

/-- Going on twice is going on with both. -/
theorem bind_assoc
    (r : Res α) (f : α → Heap → Res β) (g : β → Heap → Res γ) :
    (r.bind f).bind g = r.bind fun a h => (f a h).bind g := by
  induction r with
  | value a h =>
      rfl
  | raise s h =>
      rfl
  | blocked b h k ih =>
      simp only [Res.bind]
      congr 1
      funext h
      exact ih h
  | outOfFuel =>
      rfl

/-- Going on with the value itself changes nothing. -/
theorem bind_value
    (r : Res α) :
    r.bind Res.value = r := by
  induction r with
  | value a h =>
      rfl
  | raise s h =>
      rfl
  | blocked b h k ih =>
      simp only [Res.bind]
      congr 1
      funext h
      exact ih h
  | outOfFuel =>
      rfl

end Res

namespace Eval

variable {α β γ : Type}

/-- A sequence runs its second part where the first part ends. -/
theorem bind_apply
    (x : Eval α) (f : α → Eval β) (c : Context) (h : Heap) :
    (x >>= f) c h = (x c h).bind fun a h => f a c h := by
  show Eval.bind x f c h = _
  unfold Eval.bind
  cases x c h <;> rfl

/-- A sequence of three computations can be read from either end. -/
theorem bind_bind
    (x : Eval α) (f : α → Eval β) (g : β → Eval γ) :
    (x >>= f) >>= g = x >>= fun a => f a >>= g := by
  funext c h
  simp only [bind_apply]
  exact Res.bind_assoc _ _ _

/-- A computation that gives the value of another one is that other one. -/
theorem bind_pure_id
    (x : Eval α) :
    (x >>= fun a => pure (id a)) = x := by
  funext c h
  rw [bind_apply]
  exact Res.bind_value _

/-- Evaluations obey the monad laws. -/
instance : LawfulMonad Eval :=
  LawfulMonad.mk' Eval bind_pure_id (fun _ _ => rfl) bind_bind

theorem change_apply
    (f : Heap → α × Heap) (c : Context) (h : Heap) :
    change f c h = .value (f h).1 (f h).2 := by
  rfl

theorem modify_apply
    (f : Heap → Heap) (c : Context) (h : Heap) :
    modify f c h = .value () (f h) := by
  rfl

theorem note_apply
    (e : Event) (c : Context) (h : Heap) :
    note e c h = .value () (h.note e) := by
  rfl

/-- An event that is told first. -/
theorem note_bind_apply
    (e : Event) (x : Eval α) (c : Context) (h : Heap) :
    (note e >>= fun _ => x) c h = x c (h.note e) := by
  rfl

theorem heap_bind_apply
    (f : Heap → Eval α) (c : Context) (h : Heap) :
    (heap >>= f) c h = f h c h := by
  rfl

theorem throwValue_apply
    (e : Exception) (c : Context) (h : Heap) :
    (throwValue e : Eval α) c h = .raise (.thrown e) (h.note (.threw e)) := by
  rfl

theorem currentFrame_apply
    (c : Context) (h : Heap) :
    currentFrame c h = .value c.frame h := by
  rfl

theorem fault_apply
    (cause : Cause) (c : Context) (h : Heap) :
    (fault cause : Eval α) c h =
      .raise (.fault (.ofCause cause)) (h.note (.faulted cause)) := by
  rfl

theorem within_apply
    (frame : ScopeId) (x : Eval α) (c : Context) (h : Heap) :
    within frame x c h = x { c with frame := some frame } h := by
  rfl

theorem attempt_apply
    (x : Eval α) (c : Context) (h : Heap) :
    attempt x c h = (x c h).attempt := by
  rfl

end Eval

/-! ### How evaluations end -/

section Endings

variable {α β : Type}

/-- What is asked of the end of an evaluation: of a value, of a signal, and of the want of fuel. -/
structure Post (α : Type) where
  value : α → Heap → Prop
  signal : Signal → Heap → Prop
  fuel : Prop

namespace Post

/-- There is a value, and something holds of it and of the heap. -/
def returns (P : α → Heap → Prop) : Post α := ⟨P, fun _ _ => False, False⟩

/-- If there is a value, something holds of it and of the heap. -/
def answers (P : α → Heap → Prop) : Post α := ⟨P, fun _ _ => True, True⟩

/-- If there is a signal, something holds of it and of the heap. -/
def fails (S : Signal → Heap → Prop) : Post α := ⟨fun _ _ => True, S, True⟩

/-- Whatever the outcome, something holds of the heap. -/
def leaves (J : Heap → Prop) : Post α := ⟨fun _ => J, fun _ => J, True⟩

/-- The same is asked of a signal and of the want of fuel, and something else of the value. -/
def withValue (Q : Post α) (P : β → Heap → Prop) : Post β := ⟨P, Q.signal, Q.fuel⟩

end Post

namespace Res

variable {I : Heap → Prop} {Q : Post α} {P : β → Heap → Prop} {r : Res α}

/-- An evaluation that goes on with heaps of a kind ends as is asked. -/
inductive Ensures (I : Heap → Prop) (Q : Post α) : Res α → Prop
  | value {a : α} {h : Heap} : Q.value a h → Ensures I Q (value a h)
  | raise {s : Signal} {h : Heap} : Q.signal s h → Ensures I Q (raise s h)
  | blocked {b : Blocker} {h : Heap} {resume : Heap → Res α} :
      (∀ h', I h' → Ensures I Q (resume h')) → Ensures I Q (blocked b h resume)
  | outOfFuel : Q.fuel → Ensures I Q outOfFuel

namespace Ensures

theorem value_iff
    {a : α} {h : Heap} :
    (Res.value a h).Ensures I Q ↔ Q.value a h :=
  ⟨fun | .value hvalue => hvalue, .value⟩

theorem raise_iff
    {s : Signal} {h : Heap} :
    (Res.raise s h : Res α).Ensures I Q ↔ Q.signal s h :=
  ⟨fun | .raise hsignal => hsignal, .raise⟩

/-- What is asked of the end may be weakened. -/
theorem imp
    {Q' : Post α} (hr : r.Ensures I Q) (hvalue : ∀ a h, Q.value a h → Q'.value a h)
    (hsignal : ∀ s h, Q.signal s h → Q'.signal s h) (hfuel : Q.fuel → Q'.fuel) :
    r.Ensures I Q' := by
  induction hr with
  | value hQ =>
      exact .value (hvalue _ _ hQ)
  | raise hQ =>
      exact .raise (hsignal _ _ hQ)
  | blocked _ ih =>
      exact .blocked ih
  | outOfFuel hQ =>
      exact .outOfFuel (hfuel hQ)

theorem imp_value
    {P : α → Heap → Prop} (hr : r.Ensures I Q) (hvalue : ∀ a h, Q.value a h → P a h) :
    r.Ensures I (Q.withValue P) :=
  hr.imp hvalue (fun _ _ => id) id

/-- The second part of a sequence runs on the values of the first part. -/
theorem bind
    {f : α → Heap → Res β} (hr : r.Ensures I Q)
    (hf : ∀ a h, Q.value a h → (f a h).Ensures I (Q.withValue P)) :
    (r.bind f).Ensures I (Q.withValue P) := by
  induction hr with
  | value hQ =>
      exact hf _ _ hQ
  | raise hQ =>
      exact .raise hQ
  | blocked _ ih =>
      exact .blocked ih
  | outOfFuel hQ =>
      exact .outOfFuel hQ

/-- A list is gone through value by value. -/
theorem mapM
    {f : α → Eval β} {R : α → β → Prop} {S : Signal → Heap → Prop} {F : Prop} {as : List α}
    {ctx : Context} {h : Heap} (hI : I h)
    (hf : ∀ a ∈ as, ∀ h, I h → (f a ctx h).Ensures I ⟨fun b h' => I h' ∧ R a b, S, F⟩) :
    (as.mapM f ctx h).Ensures I ⟨fun bs h' => I h' ∧ List.Forall₂ R as bs, S, F⟩ := by
  induction as generalizing h with
  | nil =>
      exact .value ⟨hI, .nil⟩
  | cons a as ih =>
      rw [List.mapM_cons, Eval.bind_apply]
      refine (hf a List.mem_cons_self h hI).bind ?_
      rintro b h₁ ⟨hI₁, hb⟩
      rw [Eval.bind_apply]
      refine (ih hI₁ fun a' ha' => hf a' (List.mem_cons_of_mem a ha')).bind ?_
      rintro bs h₂ ⟨hI₂, hbs⟩
      exact .value ⟨hI₂, .cons hb hbs⟩

end Ensures

/-- Nothing need be known of an evaluation to ask nothing of it. -/
theorem ensures_trivial
    (I : Heap → Prop) (r : Res α) :
    r.Ensures I (.answers fun _ _ => True) := by
  induction r with
  | value a h => exact .value trivial
  | raise s h => exact .raise trivial
  | blocked b h resume ih => exact .blocked fun h' _ => ih h'
  | outOfFuel => exact .outOfFuel trivial

end Res

end Endings

end ScriptEngine
