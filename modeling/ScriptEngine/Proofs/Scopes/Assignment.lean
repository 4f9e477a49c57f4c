import Mathlib.Logic.Function.Basic
import ScriptEngine.Proofs.Evaluation.Checks
import ScriptEngine.Proofs.Scopes.Snapshot

/-!
# Assignments to variables

The *nearest* binding of a name is the one in the first scope of an environment that binds the name
(`Scopes.Nearest`).  Environments may share scopes in any way: a closure sees the scopes it was made
in, and so do the blocks and calls that are open inside them.  So a binding may be the nearest one
for many environments, and a scope that binds the name again hides it from those inside.

* `resolve_eq_some_iff`: every lookup goes to the nearest binding.
* `Rebound`: scopes that differ in the binding of one name in one scope.  What code sees of them
  differs only where that binding is the nearest one (`Rebound.view_eq`).
* `set_nearest`: an assignment rebinds the nearest binding to the new value and does nothing else,
  or it is refused, for a reason that the nearest binding tells.
-/

namespace ScriptEngine
namespace Scopes

variable {s t : Scopes} {env : Env} {name : String} {id : ScopeId} {b c : Binding}

/-! ### The nearest binding -/

/-- In the first scope of an environment that binds a name, the name has a binding. -/
structure Nearest (s : Scopes) (env : Env) (name : String) (id : ScopeId) (b : Binding) : Prop where
  bound : s.binding? id name = some b
  first : ∃ inner outer, env = inner ++ id :: outer ∧ ∀ i ∈ inner, s.binding? i name = none

theorem resolve_cons
    (s : Scopes) (name : String) (id : ScopeId) (env : Env) :
    s.resolve name (id :: env) = ((s.binding? id name).map (id, ·)).or (s.resolve name env) := by
  rw [resolve, ← binding?]
  cases s.binding? id name <;> rfl

/-- Every lookup goes to the nearest binding. -/
theorem resolve_eq_some_iff :
    s.resolve name env = some (id, b) ↔ s.Nearest env name id b := by
  induction env with
  | nil =>
      constructor
      · intro h
        nomatch h
      · rintro ⟨-, inner, outer, heq, -⟩
        simp at heq
  | cons i rest ih =>
      rw [resolve_cons]
      cases hi : s.binding? i name with
      | some c =>
          rw [Option.map_some, Option.some_or]
          constructor
          · intro h
            cases h
            exact ⟨hi, [], rest, rfl, by simp⟩
          · rintro ⟨hb, inner, outer, heq, hinner⟩
            cases inner with
            | nil =>
                cases heq
                rw [hi] at hb
                cases hb
                rfl
            | cons j inner =>
                cases heq
                rw [hinner i List.mem_cons_self] at hi
                cases hi
      | none =>
          rw [Option.map_none, Option.none_or, ih]
          constructor
          · rintro ⟨hb, inner, outer, rfl, hinner⟩
            exact ⟨hb, i :: inner, outer, rfl, List.forall_mem_cons.mpr ⟨hi, hinner⟩⟩
          · rintro ⟨hb, inner, outer, heq, hinner⟩
            cases inner with
            | nil =>
                cases heq
                rw [hi] at hb
                cases hb
            | cons j inner =>
                cases heq
                exact ⟨hb, inner, outer, rfl, (List.forall_mem_cons.mp hinner).2⟩

theorem resolve_eq_none_iff :
    s.resolve name env = none ↔ ∀ id b, ¬ s.Nearest env name id b := by
  rw [← Option.not_isSome_iff_eq_none, Option.isSome_iff_exists]
  simp only [Prod.exists, resolve_eq_some_iff, not_exists]

/-! ### Rebinding -/

/-- Scopes that differ in the binding of one name in one scope, and in nothing else. -/
structure Rebound (s t : Scopes) (id : ScopeId) (name : String) (c : Binding) : Prop where
  binding : ∀ i n, t.binding? i n = if i = id ∧ n = name then some c else s.binding? i n
  imports : ∀ i, (t.scope i).imports = (s.scope i).imports
  frame : ∀ i, (t.scope i).frame = (s.scope i).frame

/-- A name that a scope binds is given another binding there. -/
theorem rebound_update
    (hb : s.binding? id name = some b) (c : Binding) :
    Rebound s (s.update id fun sc => { sc with vars := sc.vars.insert name c }) id name c := by
  have hid : id < s.items.size := by
    by_contra hle
    rw [binding?, scope, Array.getD_eq_getD_getElem?,
      Array.getElem?_eq_none (Nat.le_of_not_lt hle)] at hb
    cases hb
  refine ⟨fun i n => ?_, fun i => ?_, frame_update s id _ fun _ => rfl⟩
  · rw [binding?, scope_update]
    by_cases hi : id = i
    · subst hi
      rw [if_pos ⟨rfl, hid⟩, Assoc.find?_insert]
      by_cases hn : name = n
      · rw [if_pos hn, if_pos ⟨rfl, hn.symm⟩]
      · rw [if_neg hn, if_neg fun h => hn h.2.symm, binding?]
    · rw [if_neg fun h => hi h.1, if_neg fun h => hi h.1.symm, binding?]
  · rw [scope_update]
    split <;> rfl

namespace Rebound

/-- A name leads to the scope that it led to, and to the new binding just if that is rebound. -/
theorem resolve_eq
    (ht : Rebound s t id name c) (hb : s.binding? id name = some b) (n : String) (env : Env) :
    t.resolve n env =
      (s.resolve n env).map fun r => if r.1 = id ∧ n = name then (r.1, c) else r := by
  induction env with
  | nil =>
      rfl
  | cons i rest ih =>
      rw [resolve_cons, resolve_cons, ih, ht.binding]
      by_cases hi : i = id ∧ n = name
      · obtain ⟨rfl, rfl⟩ := hi
        simp [hb]
      · cases hbound : s.binding? i n with
        | none =>
            simp [hi]
        | some d =>
            simp [hi]

theorem importsOf_eq
    (ht : Rebound s t id name c) (env : Env) :
    t.importsOf env = s.importsOf env := by
  cases env with
  | nil =>
      rfl
  | cons i rest =>
      exact ht.imports i

theorem innermostFrame_eq
    (ht : Rebound s t id name c) (env : Env) :
    t.innermostFrame env = s.innermostFrame env := by
  induction env with
  | nil =>
      rfl
  | cons i rest ih =>
      rw [innermostFrame, innermostFrame, ht.frame, ih]

theorem receiver_eq
    (ht : Rebound s t id name c) (env : Env) :
    t.receiver env = s.receiver env := by
  induction env with
  | nil =>
      rfl
  | cons i rest ih =>
      rw [receiver, receiver, ht.frame, ih]

theorem takeDeferred_eq
    (ht : Rebound s t id name c) (env : Env) :
    (t.takeDeferred env).1 = (s.takeDeferred env).1 := by
  cases env with
  | nil =>
      rfl
  | cons i rest =>
      rw [takeDeferred, takeDeferred, ht.frame]
      split <;> rfl

theorem bindsHere_eq
    (ht : Rebound s t id name c) (hb : s.binding? id name = some b) (env : Env) :
    t.bindsHere env = s.bindsHere env := by
  funext n
  cases env with
  | nil =>
      rfl
  | cons i rest =>
      show (t.binding? i n).isSome = (s.binding? i n).isSome
      rw [ht.binding]
      split
      · next h =>
          rw [h.1, h.2, hb]
          rfl
      · rfl

theorem lookup_of_nearest
    (ht : Rebound s t id name c) (hb : s.Nearest env name id b) :
    t.lookup env = Function.update (s.lookup env) name (some c.value) := by
  funext n
  rw [lookup, ht.resolve_eq hb.bound]
  by_cases hn : n = name
  · subst hn
    rw [Function.update_self, resolve_eq_some_iff.mpr hb]
    simp
  · rw [Function.update_of_ne hn, lookup]
    simp [hn]

/-- A binding that is hidden, or bound in a scope that code does not see, may change. -/
theorem lookup_of_not_nearest
    (ht : Rebound s t id name c) (hb : s.binding? id name = some b)
    (hfar : ¬ s.Nearest env name id b) :
    t.lookup env = s.lookup env := by
  funext n
  rw [lookup, lookup, ht.resolve_eq hb]
  cases hr : s.resolve n env with
  | none =>
      rfl
  | some r =>
      have hne : ¬ (r.1 = id ∧ n = name) := by
        rintro ⟨rfl, rfl⟩
        have hbound := binding?_of_resolve hr
        rw [hb] at hbound
        cases hbound
        exact hfar (resolve_eq_some_iff.mp hr)
      simp [hne]

/-- Where only the value of a binding changes, code sees a change of values at most. -/
theorem view_eq
    (ht : Rebound s t id name c) (hb : s.binding? id name = some b) (hkind : c.kind = b.kind)
    (htype : c.type = b.type) (env : Env) :
    t.view env = { s.view env with value := t.lookup env } := by
  -- A name that leads to the changed binding led to the old one, which has the kind and the type.
  have hsame {α : Type} (f : Binding → α) (hf : f c = f b) (n : String) :
      (t.resolve n env).map (f ·.2) = (s.resolve n env).map (f ·.2) := by
    rw [ht.resolve_eq hb]
    cases hr : s.resolve n env with
    | none =>
        rfl
    | some r =>
        by_cases hi : r.1 = id ∧ n = name
        · have hbound := binding?_of_resolve hr
          rw [hi.1, hi.2, hb] at hbound
          simp [hi, hf, Option.some.inj hbound]
        · simp [hi]
  have hkinds : t.kind? env = s.kind? env := funext (hsame (·.kind) hkind)
  have htypes : t.declaredType env = s.declaredType env := by
    funext n
    have h := congrArg (·.bind fun t => t) (hsame (·.type) htype n)
    rwa [Option.bind_map, Option.bind_map] at h
  have hfaults : t.assignFault? env = s.assignFault? env := by
    funext n
    rw [assignFault?_eq_kind?, assignFault?_eq_kind?, hkinds]
  have himports : t.importedAs env = s.importedAs env := by
    funext n
    rw [importedAs, importedAs, ht.importsOf_eq]
  rw [view, view, hkinds, htypes, hfaults, himports, ht.bindsHere_eq hb, ht.receiver_eq,
    ht.takeDeferred_eq, frameName, frameName, defers, defers, ht.innermostFrame_eq]

end Rebound

/-! ### Assignments -/

theorem kind?_eq_some_iff {kind : BindingKind} :
    s.kind? env name = some kind ↔ ∃ id b, s.Nearest env name id b ∧ b.kind = kind := by
  rw [kind?, Option.map_eq_some_iff]
  simp only [Prod.exists, resolve_eq_some_iff]

theorem kind?_eq_none_iff :
    s.kind? env name = none ↔ ∀ id b, ¬ s.Nearest env name id b := by
  rw [kind?, Option.map_eq_none_iff, resolve_eq_none_iff]

theorem set_eq_undefined_iff {v : Value} :
    s.set env name v = .error (.undefinedName name) ↔ s.kind? env name = none := by
  rw [set_eq_error_iff, assignFault?_eq_kind?]
  cases s.kind? env name with
  | none =>
      simp
  | some kind =>
      cases kind <;> simp

theorem set_eq_immutable_iff {v : Value} {what : String} :
    s.set env name v = .error (.immutable what name) ↔
      s.kind? env name = some .constBinding ∧ what = "constant" ∨
        s.kind? env name = some .finalBinding ∧ what = "final variable" := by
  rw [set_eq_error_iff, assignFault?_eq_kind?]
  cases s.kind? env name with
  | none =>
      simp
  | some kind =>
      cases kind <;> simp [eq_comm]

theorem exists_set_iff {v : Value} :
    (∃ t, s.set env name v = .ok t) ↔
      ∃ kind, s.kind? env name = some kind ∧ kind.isImmutable = false := by
  rw [set, assignFault?_eq_kind?]
  cases s.kind? env name with
  | none =>
      simp
  | some kind =>
      cases kind <;> simp [BindingKind.isImmutable]

/-- What is assigned rebinds the nearest binding. -/
theorem rebound_of_set
    {v : Value} (hset : s.set env name v = .ok t) (hb : s.Nearest env name id b) :
    Rebound s t id name { b with value := v } := by
  rw [set, assign, resolve_eq_some_iff.mpr hb] at hset
  split at hset
  · cases hset
  · cases hset
    exact rebound_update hb.bound _

end Scopes

/-- The evaluator assigns to a name as the scopes do, once the value has passed the check of the
declared type; where it does not assign, only the history tells. -/
theorem Eval.assignName_eq_set
    (env : Env) (name : String) (v : Value) (ctx : Context) (h : Heap) :
    assignName env name v ctx h =
      match (h.scopes.declaredType env name).bind fun t =>
          h.checkFault? v t (bindingsInMethod h env) s!"variable '{name}'" with
      | some cause => .raise (.fault (.ofCause cause)) (h.note (.faulted cause))
      | none =>
        match h.scopes.set env name v with
        | .error cause => .raise (.fault (.ofCause cause)) (h.note (.faulted cause))
        | .ok t => .value () { h with scopes := t } := by
  rw [assignName_apply, assignNameFault?, Scopes.set]
  cases (h.scopes.declaredType env name).bind fun t =>
      h.checkFault? v t (bindingsInMethod h env) s!"variable '{name}'" with
  | some cause =>
      rfl
  | none =>
      cases h.scopes.assignFault? env name <;> rfl

namespace Scopes

/-- Lookups and assignments go to one binding of a name, the nearest one.  An assignment is refused
just if there is none or it is constant or final.  Else each environment for which it is the nearest
one sees the new value, and its kind and declared type as before; nothing else changes of what code
sees in any environment: other names, hidden bindings of the name, imports, receivers and deferred
calls.  An assignment that the evaluator refuses leaves all scopes as they are. -/
theorem set_nearest
    (s : Scopes) (env : Env) (name : String) (v : Value) :
    (∀ id b, s.Nearest env name id b → s.lookup env name = some b.value ∧
      s.kind? env name = some b.kind ∧ s.declaredType env name = b.type) ∧
    ((∀ id b, ¬ s.Nearest env name id b) → s.lookup env name = none ∧
      s.kind? env name = none ∧ s.declaredType env name = none) ∧
    (s.set env name v = .error (.undefinedName name) ↔ ∀ id b, ¬ s.Nearest env name id b) ∧
    (∀ what, s.set env name v = .error (.immutable what name) ↔
      (∃ id b, s.Nearest env name id b ∧ b.kind = .constBinding) ∧ what = "constant" ∨
      (∃ id b, s.Nearest env name id b ∧ b.kind = .finalBinding) ∧ what = "final variable") ∧
    ((∃ t, s.set env name v = .ok t) ↔
      ∃ id b, s.Nearest env name id b ∧ b.kind.isImmutable = false) ∧
    (∀ t, s.set env name v = .ok t → ∀ id b, s.Nearest env name id b →
      Rebound s t id name { b with value := v } ∧
      ∀ a : Env,
        (s.Nearest a name id b → t.Nearest a name id { b with value := v } ∧
          t.view a =
            { s.view a with value := Function.update (s.view a).value name (some v) }) ∧
        (¬ s.Nearest a name id b → t.view a = s.view a)) ∧
    (∀ (ctx : Context) (h : Heap), h.scopes = s → ∀ cause, s.set env name v = .error cause →
      ∃ cause' h', Eval.assignName env name v ctx h = .raise (.fault (.ofCause cause')) h' ∧
        h' = h.note (.faulted cause') ∧ h'.scopes = s) := by
  refine ⟨fun id b hb => ?_, fun hnone => ?_, set_eq_undefined_iff.trans kind?_eq_none_iff,
    fun what => ?_, ?_, fun t ht id b hb => ?_, fun ctx h hs cause hset => ?_⟩
  · rw [lookup, kind?, declaredType, resolve_eq_some_iff.mpr hb]
    exact ⟨rfl, rfl, rfl⟩
  · rw [lookup, kind?, declaredType, resolve_eq_none_iff.mpr hnone]
    exact ⟨rfl, rfl, rfl⟩
  · rw [set_eq_immutable_iff, kind?_eq_some_iff, kind?_eq_some_iff]
  · rw [exists_set_iff]
    constructor
    · rintro ⟨kind, hkind, himmutable⟩
      obtain ⟨id, b, hb, rfl⟩ := kind?_eq_some_iff.mp hkind
      exact ⟨id, b, hb, himmutable⟩
    · rintro ⟨id, b, hb, himmutable⟩
      exact ⟨b.kind, kind?_eq_some_iff.mpr ⟨id, b, hb, rfl⟩, himmutable⟩
  · have hrebound := rebound_of_set ht hb
    refine ⟨hrebound, fun a => ⟨fun ha => ⟨?_, ?_⟩, fun ha => ?_⟩⟩
    · rw [← resolve_eq_some_iff, hrebound.resolve_eq hb.bound, resolve_eq_some_iff.mpr ha]
      simp
    · rw [hrebound.view_eq hb.bound rfl rfl, hrebound.lookup_of_nearest ha]
      rfl
    · rw [hrebound.view_eq hb.bound rfl rfl, hrebound.lookup_of_not_nearest hb.bound ha]
      rfl
  · subst hs
    rw [Eval.assignName_eq_set, hset]
    split
    · exact ⟨_, _, rfl, rfl, rfl⟩
    · exact ⟨_, _, rfl, rfl, rfl⟩

/-- The inner `a` is assigned to, which the outer scope does not see; the outer `b` is constant. -/
theorem set_nearest_shadowed :
    ∃ t, shadowed.set [1, 0] "a" (.int 7) = .ok t ∧
      shadowed.Nearest [1, 0] "a" 1 ⟨.int 2, .letBinding, some (.simple "Int")⟩ ∧
      t.lookup [1, 0] "a" = some (.int 7) ∧ t.view [0] = shadowed.view [0] ∧
      shadowed.set [1, 0] "b" (.int 7) = .error (.immutable "constant" "b") := by
  obtain ⟨-, -, -, -, hset, hsees, -⟩ := set_nearest shadowed [1, 0] "a" (.int 7)
  obtain ⟨-, -, -, hrefused, -⟩ := set_nearest shadowed [1, 0] "b" (.int 7)
  have hinner : shadowed.Nearest [1, 0] "a" 1 ⟨.int 2, .letBinding, some (.simple "Int")⟩ :=
    ⟨rfl, [], [0], rfl, by simp⟩
  have houter : shadowed.Nearest [1, 0] "b" 0 ⟨.int 1, .constBinding, none⟩ :=
    ⟨rfl, [1], [], rfl, List.forall_mem_singleton.mpr rfl⟩
  have hfar : ¬ shadowed.Nearest [0] "a" 1 ⟨.int 2, .letBinding, some (.simple "Int")⟩ := by
    intro h
    nomatch (resolve_eq_some_iff.mpr h : some (0, _) = some (1, _))
  obtain ⟨t, ht⟩ := hset.mpr ⟨1, _, hinner, rfl⟩
  obtain ⟨-, hviews⟩ := hsees t ht 1 _ hinner
  have hview := ((hviews [1, 0]).1 hinner).2
  have hvalue : t.lookup [1, 0] "a" =
      Function.update (shadowed.view [1, 0]).value "a" (some (.int 7)) "a" :=
    congrFun (congrArg View.value hview) "a"
  refine ⟨t, ht, hinner, ?_, (hviews [0]).2 hfar, ?_⟩
  · rw [hvalue, Function.update_self]
  · exact (hrefused _).mpr (.inl ⟨⟨0, _, houter, rfl⟩, rfl⟩)

end Scopes
end ScriptEngine
