import Mathlib.Data.List.Infix
import ScriptEngine.Proofs.Scopes.Snapshot

/-!
# Imports of snapshots

A scope starts with the imports of the scope that it is opened in, and from then on code sees those
of its own scope only.  A snapshot gathers the imports of all scopes around it: it has what code saw
where it was taken, and besides what was imported *late*, in an outer scope when the scope inside it
was open already.

* `importedAs_snapshot`: a snapshot answers as the nearest environment that has the import.
* `Grown.importedLate`: what is imported outside and not inside was imported late.
* `Grove.snapshot_imports`: the answers differ for the names that were imported late and are not
  seen, and for no other.
-/

namespace ScriptEngine

variable {s : Scopes} {env a outer : Env} {id : ScopeId} {name : String} {op : ScopeOp}

namespace Scopes

/-! ### What is imported -/

theorem find?_flatten_imports
    (s : Scopes) (env : Env) (name : String) :
    (s.flatten env).2.find? name = env.tails.findSome? fun a => s.importedAs a name := by
  induction env with
  | nil =>
      rfl
  | cons id rest ih =>
      rw [flatten, find?_copy, ih, List.tails_cons, List.findSome?_cons, importedAs, importsOf,
        Assoc.find?]
      cases List.lookup name (s.scope id).imports.entries with
      | none =>
          rfl
      | some m =>
          rfl

/-- A snapshot answers as the nearest environment that has the import. -/
theorem importedAs_snapshot
    (s : Scopes) (env : Env) (name : String) :
    (s.snapshot env).2.importedAs (s.snapshot env).1 name =
      env.tails.findSome? fun a => s.importedAs a name := by
  rw [snapshot_env, importedAs, importsOf, scope_snapshot_self, find?_flatten_imports]

/-- Between an environment that has an import and one inside it that has not, there are two next to
each other that differ. -/
theorem exists_edge
    (hnone : s.importedAs env name = none) (ha : a <:+ env) (hsome : s.importedAs a name ≠ none) :
    ∃ id outer, id :: outer <:+ env ∧ s.importedAs outer name ≠ none ∧
      s.importedAs (id :: outer) name = none := by
  induction env with
  | nil =>
      rw [List.suffix_nil.mp ha] at hsome
      exact absurd rfl hsome
  | cons id rest ih =>
      rcases List.suffix_cons_iff.mp ha with rfl | ha
      · exact absurd hnone hsome
      · by_cases hrest : s.importedAs rest name = none
        · obtain ⟨i, outer, hsuffix, hstep⟩ := ih hrest ha
          exact ⟨i, outer, hsuffix.trans (List.suffix_cons _ _), hstep⟩
        · exact ⟨id, rest, List.suffix_rfl, hrest, hnone⟩

/-! ### What changes it -/

theorem importsOf_update
    {f : Scope → Scope} (hf : ∀ sc, (f sc).imports = sc.imports) (s : Scopes) (id : ScopeId)
    (a : Env) :
    (s.update id f).importsOf a = s.importsOf a := by
  cases a with
  | nil =>
      rfl
  | cons i rest =>
      rw [importsOf, importsOf, scope_update]
      split
      · exact hf _
      · rfl

theorem importsOf_add
    (s : Scopes) (sc : Scope) (ha : ∀ id ∈ a, id < s.items.size) :
    (s.add sc).2.importsOf a = s.importsOf a := by
  cases a with
  | nil =>
      rfl
  | cons i rest =>
      rw [importsOf, importsOf, scope_add, if_neg (Nat.ne_of_lt (ha i List.mem_cons_self))]

/-- Of the operations, only an import changes what is imported in an environment that exists. -/
theorem importsOf_perform
    (hop : ∀ n m, op ≠ .importAs n m) (ha : ∀ id ∈ a, id < s.items.size) :
    (s.perform env op).1.importsOf a = s.importsOf a := by
  cases op with
  | define n b =>
      cases env with
      | nil =>
          rfl
      | cons i rest =>
          show (s.update i _).importsOf a = _
          exact importsOf_update (by exact fun _ => rfl) s i a
  | set n v =>
      rw [perform, set]
      cases s.assignFault? env n with
      | some c =>
          rfl
      | none =>
          show (s.assign env n v).importsOf a = _
          rw [assign]
          split
          · rfl
          · exact importsOf_update (by exact fun _ => rfl) s _ a
  | importAs n m =>
      exact absurd rfl (hop n m)
  | deferCall d =>
      show (s.deferCall env d).importsOf a = _
      rw [deferCall]
      split
      · rfl
      · exact importsOf_update (by exact fun _ => rfl) s _ a
  | takeDeferred =>
      show (s.takeDeferred env).2.importsOf a = _
      cases env with
      | nil =>
          rfl
      | cons i rest =>
          rw [takeDeferred]
          split
          · rfl
          · show (s.update i _).importsOf a = _
            exact importsOf_update (by exact fun _ => rfl) s i a
  | child | enter | snapshot =>
      exact importsOf_add s _ ha

theorem importedAs_importAs
    (s : Scopes) (i id : ScopeId) (outer a : Env) (n m name : String) :
    (s.importAs (i :: outer) n m).importedAs (id :: a) name =
      if (i = id ∧ id < s.items.size) ∧ n = name then some m
      else s.importedAs (id :: a) name := by
  rw [importedAs, importsOf, importAs, scope_update]
  by_cases hid : i = id ∧ id < s.items.size
  · rw [if_pos hid, Assoc.find?_insert]
    simp only [hid, true_and, importedAs, importsOf]
  · rw [if_neg hid, if_neg fun h => hid h.1]
    rfl

/-- An import is never undone. -/
theorem importedAs_perform_ne_none
    (ha : ∀ id ∈ a, id < s.items.size) (hsome : s.importedAs a name ≠ none) :
    (s.perform env op).1.importedAs a name ≠ none := by
  by_cases hop : ∃ n m, op = .importAs n m
  · obtain ⟨n, m, rfl⟩ := hop
    show (s.importAs env n m).importedAs a name ≠ none
    obtain _ | ⟨id, rest⟩ := a
    · exact hsome
    obtain _ | ⟨i, outer⟩ := env
    · exact hsome
    rw [importedAs_importAs]
    split
    · exact Option.some_ne_none m
    · exact hsome
  · rwa [importedAs, importsOf_perform (fun n m h => hop ⟨n, m, h⟩) ha]

/-- What is opened inside an environment starts with its imports; a snapshot is not inside any. -/
theorem importsOf_opened
    (h : (s.perform env op).2 = some a) :
    a = s.items.size :: env ∧ (s.perform env op).1.importsOf a = s.importsOf env ∨
      a = [s.items.size] := by
  cases op with
  | define | importAs | deferCall | takeDeferred =>
      cases h
  | set name v =>
      rw [perform] at h
      split at h <;> cases h
  | child | enter =>
      obtain rfl := Option.some.inj h
      refine .inl ⟨rfl, ?_⟩
      exact congrArg Scope.imports ((scope_add s _ _).trans (if_pos rfl))
  | snapshot =>
      obtain rfl := Option.some.inj h
      exact .inr rfl

end Scopes

/-! ### Environments and what is done in them -/

/-- The environments of a program, with their scopes. -/
structure Grove where
  scopes : Scopes
  envs : List Env

namespace Grove

/-- A program before it does anything. -/
def start : Grove where
  scopes := (Scopes.root default).2
  envs := [(Scopes.root default).1]

/-- What an operation in an environment makes of them. -/
def after (w : Grove) (env : Env) (op : ScopeOp) : Grove where
  scopes := (w.scopes.perform env op).1
  envs := (w.scopes.perform env op).2.toList ++ w.envs

/-- What comes of operations that are done one after another, each in an environment that exists by
then. -/
inductive Grown : List (Env × ScopeOp) → Grove → Prop
  | start : Grown [] start
  | after {ops : List (Env × ScopeOp)} {w : Grove} {env : Env} (op : ScopeOp)
      (hgrown : Grown ops w) (henv : env ∈ w.envs) : Grown (ops ++ [(env, op)]) (w.after env op)

/-- A name was imported around an environment late, when there was a scope inside already. -/
def ImportedLate (ops : List (Env × ScopeOp)) (env : Env) (name : String) : Prop :=
  ∃ earlier later outer module id w, ops = earlier ++ (outer, .importAs name module) :: later ∧
    Grown earlier w ∧ id :: outer ∈ w.envs ∧ id :: outer <:+ env

variable {w : Grove} {ops : List (Env × ScopeOp)}

theorem mem_envs_after :
    a ∈ (w.after env op).envs ↔ (w.scopes.perform env op).2 = some a ∨ a ∈ w.envs := by
  rw [after, List.mem_append, Option.mem_toList]

namespace Grown

theorem exist
    (h : Grown ops w) (ha : a ∈ w.envs) :
    ∀ id ∈ a, id < w.scopes.items.size := by
  induction h generalizing a with
  | start =>
      obtain rfl := List.mem_singleton.mp ha
      exact fun id hid => (List.mem_singleton.mp hid).symm ▸ Nat.one_pos
  | @after ops w env op _ henv ih =>
      have hle := (w.scopes.within_perform env op).size_le
      rcases mem_envs_after.mp ha with hopened | hold
      · intro id hid
        rcases Scopes.opened_perform hopened hid with ⟨-, hnew⟩ | hin
        · exact hnew
        · exact Nat.lt_of_lt_of_le (ih henv id hin) hle
      · exact fun id hid => Nat.lt_of_lt_of_le (ih hold id hid) hle

/-- The environments around one exist too. -/
theorem outer_mem
    (h : Grown ops w) (ha : id :: outer ∈ w.envs) (hne : outer ≠ []) :
    outer ∈ w.envs := by
  induction h generalizing id outer with
  | start =>
      cases List.mem_singleton.mp ha
      exact absurd rfl hne
  | after op _ henv ih =>
      refine mem_envs_after.mpr (.inr ?_)
      rcases mem_envs_after.mp ha with hopened | hold
      · rcases Scopes.importsOf_opened hopened with ⟨heq, -⟩ | heq
        · cases heq
          exact henv
        · cases heq
          exact absurd rfl hne
      · exact ih hold hne

theorem suffix_mem
    (h : Grown ops w) (henv : env ∈ w.envs) (ha : a <:+ env) (hne : a ≠ []) :
    a ∈ w.envs := by
  induction env with
  | nil =>
      exact absurd (List.suffix_nil.mp ha) hne
  | cons id rest ih =>
      rcases List.suffix_cons_iff.mp ha with rfl | ha
      · exact henv
      · refine ih (h.outer_mem henv ?_) ha
        rintro rfl
        exact hne (List.suffix_nil.mp ha)

/-- A scope is opened in one environment. -/
theorem outer_eq
    (h : Grown ops w) {b : Env} (ha : id :: a ∈ w.envs) (hb : id :: b ∈ w.envs) :
    a = b := by
  induction h generalizing id a b with
  | start =>
      cases List.mem_singleton.mp ha
      cases List.mem_singleton.mp hb
      rfl
  | @after ops w env op hgrown henv ih =>
      -- What is opened has a scope that no environment had.
      have hnew {c : Env} (hc : (w.scopes.perform env op).2 = some (id :: c)) :
          id = w.scopes.items.size := by
        rcases Scopes.importsOf_opened hc with ⟨heq, -⟩ | heq <;> exact (List.cons.inj heq).1
      have hold {c d : Env} (hc : (w.scopes.perform env op).2 = some (id :: c))
          (hd : id :: d ∈ w.envs) : False :=
        Nat.ne_of_lt (hgrown.exist hd id List.mem_cons_self) (hnew hc)
      rcases mem_envs_after.mp ha with ha | ha <;> rcases mem_envs_after.mp hb with hb | hb
      · exact (List.cons.inj (Option.some.inj (ha.symm.trans hb))).2
      · exact (hold ha hb).elim
      · exact (hold hb ha).elim
      · exact ih ha hb

theorem ne_nil
    (h : Grown ops w) (ha : a ∈ w.envs) :
    a ≠ [] := by
  induction h generalizing a with
  | start =>
      cases List.mem_singleton.mp ha
      exact List.cons_ne_nil _ _
  | after op _ henv ih =>
      rcases mem_envs_after.mp ha with hopened | hold
      · rcases Scopes.importsOf_opened hopened with ⟨rfl, -⟩ | rfl <;> exact List.cons_ne_nil _ _
      · exact ih hold

/-- What was imported in an environment stays imported there. -/
theorem imported
    {module : String} (h : Grown ops w) (hop : (env, .importAs name module) ∈ ops) :
    env ∈ w.envs ∧ w.scopes.importedAs env name ≠ none := by
  induction h with
  | start =>
      nomatch hop
  | @after ops w e op hgrown henv ih =>
      rcases List.mem_append.mp hop with hop | hop
      · obtain ⟨hmem, hsome⟩ := ih hop
        exact ⟨mem_envs_after.mpr (.inr hmem),
          Scopes.importedAs_perform_ne_none (hgrown.exist hmem) hsome⟩
      · cases List.mem_singleton.mp hop
        refine ⟨mem_envs_after.mpr (.inr henv), ?_⟩
        obtain ⟨i, outer, rfl⟩ := List.exists_cons_of_ne_nil (hgrown.ne_nil henv)
        have hid := hgrown.exist henv i List.mem_cons_self
        show (w.scopes.importAs (i :: outer) name module).importedAs (i :: outer) name ≠ none
        rw [Scopes.importedAs_importAs, if_pos ⟨⟨rfl, hid⟩, rfl⟩]
        exact Option.some_ne_none module

/-- What is imported outside and not inside was imported late: a scope starts with all that is
imported outside, and an import is never undone. -/
theorem importedLate
    (h : Grown ops w) (ha : id :: outer ∈ w.envs) (hsome : w.scopes.importedAs outer name ≠ none)
    (hnone : w.scopes.importedAs (id :: outer) name = none) :
    ImportedLate ops (id :: outer) name := by
  induction h with
  | start =>
      cases List.mem_singleton.mp ha
      exact absurd rfl hsome
  | @after ops w env op hgrown henv ih =>
      rcases mem_envs_after.mp ha with hopened | hold
      · have hop : ∀ n m, op ≠ .importAs n m := by
          rintro n m rfl
          nomatch hopened
        rcases Scopes.importsOf_opened hopened with ⟨heq, himports⟩ | heq
        · cases heq
          refine absurd ?_ hsome
          have hsame : (w.after outer op).scopes.importsOf outer = w.scopes.importsOf outer :=
            Scopes.importsOf_perform hop (hgrown.exist henv)
          rw [Scopes.importedAs, hsame, ← himports]
          exact hnone
        · cases heq
          exact absurd rfl hsome
      have hexist := hgrown.exist hold
      have hinside : w.scopes.importedAs (id :: outer) name = none := by
        by_contra hsome
        exact Scopes.importedAs_perform_ne_none hexist hsome hnone
      by_cases houter : w.scopes.importedAs outer name = none
      · by_cases hop : ∃ n m, op = .importAs n m
        · -- The import is the operation itself.
          obtain ⟨n, m, rfl⟩ := hop
          obtain ⟨i, around, rfl⟩ := List.exists_cons_of_ne_nil (hgrown.ne_nil henv)
          obtain _ | ⟨j, rest⟩ := outer
          · exact absurd rfl hsome
          have hnext : j :: rest ∈ w.envs := hgrown.outer_mem hold (List.cons_ne_nil _ _)
          change (w.scopes.importAs (i :: around) n m).importedAs (j :: rest) name ≠ none at hsome
          rw [Scopes.importedAs_importAs] at hsome
          split at hsome
          · next himport =>
              obtain ⟨⟨rfl, -⟩, rfl⟩ := himport
              obtain rfl := hgrown.outer_eq henv hnext
              exact ⟨ops, [], _, m, id, w, rfl, hgrown, hold, List.suffix_rfl⟩
          · exact absurd houter hsome
        · have hsame : (w.after env op).scopes.importsOf outer = w.scopes.importsOf outer :=
            Scopes.importsOf_perform (fun n m h => hop ⟨n, m, h⟩)
              fun j hj => hexist j (List.mem_cons_of_mem _ hj)
          rw [Scopes.importedAs, hsame] at hsome
          exact absurd houter hsome
      · obtain ⟨earlier, later, o, m, i, w', rfl, hrest⟩ := ih hold houter hinside
        exact ⟨earlier, later ++ [(env, op)], o, m, i, w', by simp, hrest⟩

end Grown

/-- A snapshot and the environment that it was taken in give a name the same module, or both none,
exactly when the environment sees an import of that name or there was no late one. -/
theorem snapshot_imports
    (hgrown : Grown ops w) (henv : env ∈ w.envs) (name : String) :
    (w.scopes.snapshot env).2.importedAs (w.scopes.snapshot env).1 name =
        w.scopes.importedAs env name ↔
      w.scopes.importedAs env name ≠ none ∨ ¬ ImportedLate ops env name := by
  rw [Scopes.importedAs_snapshot]
  cases hseen : w.scopes.importedAs env name with
  | some m =>
      obtain ⟨id, outer, rfl⟩ := List.exists_cons_of_ne_nil (hgrown.ne_nil henv)
      simp [hseen]
  | none =>
      simp only [List.findSome?_eq_none_iff, List.mem_tails, ne_eq, not_true_eq_false, false_or]
      constructor
      · rintro hnone ⟨earlier, later, outer, m, id, w', rfl, -, -, hsuffix⟩
        have himported := hgrown.imported (List.mem_append_right _ List.mem_cons_self)
        exact himported.2 (hnone outer ((List.suffix_cons _ _).trans hsuffix))
      · intro hlate a ha
        by_contra hsome
        obtain ⟨id, outer, hsuffix, houter, hinside⟩ := Scopes.exists_edge hseen ha hsome
        obtain ⟨earlier, later, o, m, i, w', heq, hw', hin, hi⟩ :=
          hgrown.importedLate (hgrown.suffix_mem henv hsuffix (List.cons_ne_nil _ _)) houter hinside
        exact hlate ⟨earlier, later, o, m, i, w', heq, hw', hin, hi.trans hsuffix⟩

/-- A module is imported next to a block that is still open: code in the block does not see it, and
a thread that is started there does. -/
theorem snapshot_imports_block :
    let ops : List (Env × ScopeOp) := [([0], .child), ([0], .importAs "M" "Math")]
    let w := (start.after [0] .child).after [0] (.importAs "M" "Math")
    Grown ops w ∧ [1, 0] ∈ w.envs ∧ ImportedLate ops [1, 0] "M" ∧
      w.scopes.importedAs [1, 0] "M" = none ∧
      (w.scopes.snapshot [1, 0]).2.importedAs (w.scopes.snapshot [1, 0]).1 "M" ≠ none := by
  intro ops w
  have hblock : Grown [([0], .child)] (start.after [0] .child) :=
    .after .child .start List.mem_cons_self
  have hgrown : Grown ops w :=
    .after (.importAs "M" "Math") hblock (List.mem_cons_of_mem _ List.mem_cons_self)
  have henv : [1, 0] ∈ w.envs := List.mem_cons_self
  have hlate : ImportedLate ops [1, 0] "M" :=
    ⟨[([0], .child)], [], [0], "Math", 1, start.after [0] .child, rfl, hblock, List.mem_cons_self,
      List.suffix_rfl⟩
  have hnone : w.scopes.importedAs [1, 0] "M" = none := rfl
  have hiff := snapshot_imports hgrown henv "M"
  rw [hnone] at hiff
  exact ⟨hgrown, henv, hlate, hnone, fun heq => (hiff.mp heq).elim (absurd rfl) (absurd hlate)⟩

end Grove
end ScriptEngine
