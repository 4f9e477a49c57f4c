import ScriptEngine.Eval.Statement
import ScriptEngine.Proofs.Evaluation.Laws

/-!
# Checks and assignments

A check passes and changes nothing, or it fails and only the history tells.  Each check of the
evaluator is given by the fault that it finds in a heap.

A computation that does no more than look and check only `Inquires`.

An assignment to a variable, to a field or to a static field checks first and stores then: it changes
the heap if there is no fault, and else only the history tells of it.
-/

namespace ScriptEngine
namespace Eval

/-- How a check ends that finds a fault in a heap, or none. -/
def verdict (fault? : Option Cause) (h : Heap) : Res Unit :=
  match fault? with
  | none => .value () h
  | some c => .raise (.fault (.ofCause c)) (h.note (.faulted c))

theorem unlessFault_apply
    (fault? : Option Cause) (c : Context) (h : Heap) :
    unlessFault fault? c h = verdict fault? h := by
  cases fault? with
  | none =>
      rfl
  | some cause =>
      rfl

theorem check_apply
    (v : Value) (t : TypeExpr) (bs : Bindings) (what : String) (c : Context) (h : Heap) :
    check v t bs what c h = verdict (h.checkFault? v t bs what) h := by
  exact unlessFault_apply _ c h

theorem checkOption_apply
    (v : Value) (t : Option TypeExpr) (bs : Bindings) (what : String) (c : Context) (h : Heap) :
    checkOption v t bs what c h = verdict (t.bind fun t => h.checkFault? v t bs what) h := by
  cases t with
  | none =>
      rfl
  | some t =>
      exact check_apply v t bs what c h

/-- The fault of code that may not use a member. -/
def accessFault? (h : Heap) (visibility : Visibility) (member declaring : String) (env : Env) :
    Option Cause :=
  if mayAccess h visibility declaring (h.scopes.receiver env) then none
  else some (.access visibility member declaring)

theorem requireAccess_apply
    (visibility : Visibility) (member declaring : String) (env : Env) (c : Context) (h : Heap) :
    requireAccess visibility member declaring env c h =
      verdict (accessFault? h visibility member declaring env) h := by
  have hcheck : requireAccess visibility member declaring env c h =
      (if mayAccess h visibility declaring (h.scopes.receiver env) then (pure () : Eval Unit)
        else fault (.access visibility member declaring)) c h := by
    cases visibility with
    | visible =>
        simp [requireAccess, mayAccess]
    | hidden =>
        rfl
    | guarded =>
        rfl
  rw [hcheck, accessFault?]
  split
  · rfl
  · rfl

/-- What comes after a check comes only if it passes. -/
theorem verdict_bind
    {α : Type} (fault? : Option Cause) (h : Heap) (f : Unit → Heap → Res α) :
    (verdict fault? h).bind f =
      match fault? with
      | none => f () h
      | some c => .raise (.fault (.ofCause c)) (h.note (.faulted c)) := by
  cases fault? with
  | none =>
      rfl
  | some c =>
      rfl

/-- A computation that changes nothing but, where it fails, the history. -/
def Inquires {α : Type} (x : Eval α) : Prop :=
  ∀ ctx h, (∃ a, x ctx h = .value a h) ∨ ∃ cause, x ctx h = (fault cause : Eval α) ctx h

namespace Inquires

variable {α β : Type}

theorem pure
    (a : α) :
    Inquires (Pure.pure a) := by
  intro ctx h
  exact .inl ⟨a, rfl⟩

theorem fault
    (cause : Cause) :
    Inquires (Eval.fault cause : Eval α) := by
  intro ctx h
  exact .inr ⟨cause, rfl⟩

theorem bind
    {x : Eval α} {f : α → Eval β} (hx : Inquires x) (hf : ∀ a, Inquires (f a)) :
    Inquires (x >>= f) := by
  intro ctx h
  rw [bind_apply]
  obtain ⟨a, ha⟩ | ⟨cause, hfault⟩ := hx ctx h
  · rw [ha]
    exact hf a ctx h
  · rw [hfault]
    exact .inr ⟨cause, rfl⟩

theorem heap : Inquires Eval.heap := by
  intro ctx h
  exact .inl ⟨h, rfl⟩

theorem ofExcept
    (x : Except Cause α) :
    Inquires (Eval.ofExcept x) := by
  cases x with
  | ok a =>
      exact .pure a
  | error cause =>
      exact .fault cause

theorem unlessFault
    (fault? : Option Cause) :
    Inquires (Eval.unlessFault fault?) := by
  cases fault? with
  | none =>
      exact .pure ()
  | some cause =>
      exact .fault cause

end Inquires

/-! ### Storing after checks -/

/-- How an evaluation ends that stores something unless a check finds a fault. -/
def stored (fault? : Option Cause) (f : Heap → Heap) (h : Heap) : Res Unit :=
  (verdict fault? h).bind fun _ h => .value () (f h)

variable {x y : Eval Unit} {a b : Option Cause} {f : Heap → Heap} {c : Context} {h : Heap}

/-- A check that comes before others. -/
theorem stored_or
    (hx : x c h = verdict a h) (hy : y c h = stored b f h) :
    (x >>= fun _ => y) c h = stored (a.or b) f h := by
  rw [bind_apply, hx]
  cases a with
  | none =>
      exact hy
  | some cause =>
      rfl

/-- The last check. -/
theorem stored_of_check
    (hx : x c h = verdict a h) :
    (x >>= fun _ => modify f) c h = stored a f h := by
  rw [bind_apply, hx]
  rfl

/-- Only what is stored in the heap itself counts. -/
theorem stored_congr
    {g : Heap → Heap} (hfg : f h = g h) :
    stored a f h = stored a g h := by
  cases a with
  | none =>
      exact congrArg (Res.value ()) hfg
  | some cause =>
      rfl

/-! ### Fields -/

/-- The fault of an assignment to a field. -/
def assignFieldFault? (h : Heap) (o : Instance) (name : String) (v : Value) (env : Env) :
    Option Cause :=
  if o.cls.kind == .record then some (.immutable "record component" name)
  else
    match o.cls.fieldNamed name with
    | some (d, f) =>
      (accessFault? h f.visibility name d.name env).or
        ((fieldFault? h o f name).or
          (f.type.bind fun t =>
            h.checkFault? v t (o.bindingsAt d.name) s!"field '{name}' of {o.cls.name}"))
    | none => none

theorem assignField_apply
    (o : Instance) (name : String) (v : Value) (env : Env) (c : Context) (h : Heap) :
    assignField o name v env c h =
      stored (assignFieldFault? h o name v env) (·.setField o name v) h := by
  unfold assignField assignFieldFault?
  dsimp only
  split
  · rfl
  · cases o.cls.fieldNamed name with
    | none =>
        rfl
    | some df =>
        refine stored_or (requireAccess_apply _ _ _ _ c h) ?_
        refine stored_or (unlessFault_apply (fieldFault? h o df.2 name) c h) ?_
        exact stored_of_check (checkOption_apply _ _ _ _ c h)

/-! ### Static fields -/

/-- The fault of an assignment to a static field that a class has or inherits. -/
def assignStaticFault? (h : Heap) (c : ClassDef) (name : String) (v : Value) : Option Cause :=
  match h.staticHome? c name with
  | none => some (.missingMember c.name name)
  | some (owner, slot) =>
    if slot.kind.isImmutable then some (.immutable "constant" s!"{owner.name}.{name}")
    else slot.type.bind fun t =>
      h.checkFault? v t [] s!"static field '{name}' of {owner.name}"

/-- What an assignment to a static field stores. -/
def storeStatic (c : ClassDef) (name : String) (v : Value) (h : Heap) : Heap :=
  match h.staticHome? c name with
  | none => h
  | some (owner, slot) => h.setStatic owner.id name { slot with value := v }

theorem assignStatic_apply
    (cls : ClassDef) (name : String) (v : Value) (c : Context) (h : Heap) :
    assignStatic cls name v c h =
      stored (assignStaticFault? h cls name v) (storeStatic cls name v) h := by
  unfold assignStatic assignStaticFault?
  rw [bind_apply]
  show (match h.staticHome? cls name with
    | none => fault _
    | some (owner, slot) => _) c h = _
  cases hhome : h.staticHome? cls name with
  | none =>
      rfl
  | some found =>
      obtain ⟨owner, slot⟩ := found
      dsimp only
      split
      · rfl
      · refine (stored_of_check (checkOption_apply _ _ _ _ c h)).trans (stored_congr ?_)
        rw [storeStatic, hhome]

/-! ### Variables -/

/-- The fault of an assignment to a variable. -/
def assignNameFault? (h : Heap) (env : Env) (name : String) (v : Value) : Option Cause :=
  ((h.scopes.declaredType env name).bind fun t =>
    h.checkFault? v t (bindingsInMethod h env) s!"variable '{name}'").or
    (h.scopes.assignFault? env name)

theorem assignName_apply
    (env : Env) (name : String) (v : Value) (c : Context) (h : Heap) :
    assignName env name v c h = stored (assignNameFault? h env name v)
      (fun h => { h with scopes := h.scopes.assign env name v }) h := by
  refine stored_or (checkOption_apply v (h.scopes.declaredType env name) _ _ c h) ?_
  exact stored_of_check (unlessFault_apply (h.scopes.assignFault? env name) c h)

end Eval
end ScriptEngine
