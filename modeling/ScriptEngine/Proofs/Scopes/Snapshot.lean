import ScriptEngine.Proofs.Stores.Scoping

/-!
# Snapshots of scopes

A thread runs on a snapshot: one scope with a copy of all that was visible where it was started.

**Faithful.**  Every name stands for the same in the snapshot: value, kind and declared type are
those of the nearest binding, an assignment is refused for the same cause, and methods run on the
same object.

**Isolated.**  From then on there are two sides: the environments that existed and those opened
inside them, and the snapshot and those opened inside it.  No two environments of different sides
share a scope (`Fork.Apart`), an operation changes scopes of its own environment only
(`within_perform`), and so nothing done on one side is seen on the other (`Fork.Step.view_eq`).
-/

namespace ScriptEngine

variable {s t : Scopes} {env a : Env} {id : ScopeId} {name : String}

namespace Scopes

/-! ### What code sees -/

/-- How the nearest binding of a name was introduced. -/
def kind? (s : Scopes) (env : Env) (name : String) : Option BindingKind :=
  (s.resolve name env).map (·.2.kind)

/-- The calls that are deferred in the nearest frame. -/
def defers (s : Scopes) (env : Env) : List Deferred := (s.innermostFrame env).elim [] (·.2.defers)

/-- All that code in an environment can learn of its scopes. -/
structure View where
  value : String → Option Value
  kind : String → Option BindingKind
  type : String → Option TypeExpr
  assignFault : String → Option Cause
  bindsHere : String → Bool
  imported : String → Option String
  receiver : Option Receiver
  frameName : String
  defers : List Deferred
  /-- The deferred calls that the environment would give up. -/
  taken : List Deferred

/-- What code in an environment sees. -/
def view (s : Scopes) (env : Env) : View where
  value := s.lookup env
  kind := s.kind? env
  type := s.declaredType env
  assignFault := s.assignFault? env
  bindsHere := s.bindsHere env
  imported := s.importedAs env
  receiver := s.receiver env
  frameName := s.frameName env
  defers := s.defers env
  taken := (s.takeDeferred env).1

section Agree

variable (hagree : ∀ id ∈ env, t.scope id = s.scope id)
include hagree

theorem resolve_of_agree (name : String) :
    t.resolve name env = s.resolve name env := by
  induction env with
  | nil => rfl
  | cons id rest ih =>
      rw [resolve, resolve, hagree id List.mem_cons_self,
        ih fun j hj => hagree j (List.mem_cons_of_mem _ hj)]

theorem innermostFrame_of_agree :
    t.innermostFrame env = s.innermostFrame env := by
  induction env with
  | nil => rfl
  | cons id rest ih =>
      rw [innermostFrame, innermostFrame, hagree id List.mem_cons_self,
        ih fun j hj => hagree j (List.mem_cons_of_mem _ hj)]

theorem receiver_of_agree :
    t.receiver env = s.receiver env := by
  induction env with
  | nil => rfl
  | cons id rest ih =>
      rw [receiver, receiver, hagree id List.mem_cons_self,
        ih fun j hj => hagree j (List.mem_cons_of_mem _ hj)]

/-- Code sees only the scopes of its environment. -/
theorem view_of_agree :
    t.view env = s.view env := by
  have hresolve := resolve_of_agree hagree
  have hframe := innermostFrame_of_agree hagree
  have hlookup : t.lookup env = s.lookup env :=
    funext fun name => by rw [lookup, lookup, hresolve]
  have hkind : t.kind? env = s.kind? env :=
    funext fun name => by rw [kind?, kind?, hresolve]
  have htype : t.declaredType env = s.declaredType env :=
    funext fun name => by rw [declaredType, declaredType, hresolve]
  have hfault : t.assignFault? env = s.assignFault? env :=
    funext fun name => by rw [assignFault?, assignFault?, hresolve]
  have hframeName : t.frameName env = s.frameName env := by rw [frameName, frameName, hframe]
  have hdefers : t.defers env = s.defers env := by rw [defers, defers, hframe]
  -- What is left goes by the innermost scope alone.
  have hinnermost : t.bindsHere env = s.bindsHere env ∧ t.importedAs env = s.importedAs env ∧
      (t.takeDeferred env).1 = (s.takeDeferred env).1 := by
    cases env with
    | nil => exact ⟨rfl, rfl, rfl⟩
    | cons id rest =>
        have hid := hagree id List.mem_cons_self
        refine ⟨funext fun name => ?_, funext fun name => ?_, ?_⟩
        · rw [bindsHere, bindsHere, hid]
        · rw [importedAs, importedAs, importsOf, importsOf, hid]
        · rw [takeDeferred, takeDeferred, hid]
          split <;> rfl
  rw [view, view, hlookup, hkind, htype, hfault, hframeName, hdefers, receiver_of_agree hagree,
    hinnermost.1, hinnermost.2.1, hinnermost.2.2]

end Agree

/-! ### What a snapshot tells -/

theorem snapshot_env (s : Scopes) (env : Env) :
    (s.snapshot env).1 = [s.items.size] := rfl

theorem scope_snapshot_self (s : Scopes) (env : Env) :
    (s.snapshot env).2.scope s.items.size =
      ⟨(s.flatten env).1, (s.flatten env).2, some ⟨"<thread>", s.receiver env, []⟩⟩ := by
  rw [snapshot, scope_add, if_pos rfl]

/-- In a snapshot each name has the binding that was nearest. -/
theorem binding_snapshot (s : Scopes) (env : Env) (name : String) :
    ((s.snapshot env).2.resolve name (s.snapshot env).1).map (·.2) =
      (s.resolve name env).map (·.2) := by
  rw [snapshot_env, resolve, scope_snapshot_self, ← find?_flatten]
  cases (s.flatten env).1.find? name <;> rfl

theorem lookup_snapshot (s : Scopes) (env : Env) (name : String) :
    (s.snapshot env).2.lookup (s.snapshot env).1 name = s.lookup env name := by
  have h := congrArg (Option.map Binding.value) (binding_snapshot s env name)
  rwa [Option.map_map, Option.map_map] at h

theorem kind?_snapshot (s : Scopes) (env : Env) (name : String) :
    (s.snapshot env).2.kind? (s.snapshot env).1 name = s.kind? env name := by
  have h := congrArg (Option.map Binding.kind) (binding_snapshot s env name)
  rwa [Option.map_map, Option.map_map] at h

theorem declaredType_snapshot (s : Scopes) (env : Env) (name : String) :
    (s.snapshot env).2.declaredType (s.snapshot env).1 name = s.declaredType env name := by
  have h := congrArg (fun b => b.bind Binding.type) (binding_snapshot s env name)
  rwa [Option.bind_map, Option.bind_map] at h

theorem receiver_snapshot (s : Scopes) (env : Env) :
    (s.snapshot env).2.receiver (s.snapshot env).1 = s.receiver env := by
  rw [snapshot_env, receiver, scope_snapshot_self]
  cases s.receiver env <;> rfl

/-- What can be assigned to is told by the kind of the nearest binding. -/
theorem assignFault?_eq_kind? (s : Scopes) (env : Env) (name : String) :
    s.assignFault? env name =
      match s.kind? env name with
      | none => some (.undefinedName name)
      | some .constBinding => some (.immutable "constant" name)
      | some .finalBinding => some (.immutable "final variable" name)
      | some .letBinding | some .varBinding => none := by
  rw [assignFault?, kind?]
  cases s.resolve name env with
  | none => rfl
  | some r =>
      obtain ⟨-, -, kind, -⟩ := r
      cases kind <;> rfl

theorem assignFault?_snapshot (s : Scopes) (env : Env) (name : String) :
    (s.snapshot env).2.assignFault? (s.snapshot env).1 name = s.assignFault? env name := by
  rw [assignFault?_eq_kind?, assignFault?_eq_kind?, kind?_snapshot]

theorem set_eq_error_iff {v : Value} {c : Cause} :
    s.set env name v = .error c ↔ s.assignFault? env name = some c := by
  rw [set]
  cases s.assignFault? env name <;> simp

end Scopes

/-! ### Operations -/

/-- What code does to its scopes. -/
inductive ScopeOp
  | define (name : String) (b : Binding)
  | set (name : String) (v : Value)
  | importAs (localName module : String)
  | deferCall (d : Deferred)
  | takeDeferred
  | child
  | enter (name : String) (receiver : Option Receiver)
  | snapshot

namespace Scopes

/-- What becomes of the scopes, and the environment that an operation opens. -/
def perform (s : Scopes) (env : Env) : ScopeOp → Scopes × Option Env
  | .define name b => (s.define env name b, none)
  | .set name v =>
    match s.set env name v with
    | .ok t => (t, none)
    | .error _ => (s, none)
  | .importAs localName module => (s.importAs env localName module, none)
  | .deferCall d => (s.deferCall env d, none)
  | .takeDeferred => ((s.takeDeferred env).2, none)
  | .child =>
    let r := s.child env
    (r.2, some r.1)
  | .enter name receiver =>
    let r := s.enter env name receiver
    (r.2, some r.1)
  | .snapshot =>
    let r := s.snapshot env
    (r.2, some r.1)

/-- Some scopes of an environment change, and scopes are added. -/
structure Within (env : Env) (s t : Scopes) : Prop where
  size_le : s.items.size ≤ t.items.size
  scope_eq : ∀ id < s.items.size, id ∉ env → t.scope id = s.scope id

namespace Within

theorem refl (env : Env) (s : Scopes) : Within env s s := ⟨Nat.le_refl _, fun _ _ _ => rfl⟩

theorem update {f : Scope → Scope} (hid : id ∈ env) : Within env s (s.update id f) where
  size_le := Nat.le_of_eq (size_update s id f).symm
  scope_eq j _ hj := by
    rw [scope_update, if_neg]
    rintro ⟨rfl, -⟩
    exact hj hid

theorem add (env : Env) (s : Scopes) (sc : Scope) : Within env s (s.add sc).2 where
  size_le := by simp [Scopes.add]
  scope_eq j hj _ := by rw [scope_add, if_neg (Nat.ne_of_lt hj)]

end Within

theorem mem_of_resolve {r : ScopeId × Binding} (h : s.resolve name env = some r) :
    r.1 ∈ env := by
  induction env with
  | nil => nomatch h
  | cons id rest ih =>
      rw [resolve] at h
      split at h
      · cases h
        exact List.mem_cons_self
      · exact List.mem_cons_of_mem _ (ih h)

theorem mem_of_innermostFrame {r : ScopeId × Frame} (h : s.innermostFrame env = some r) :
    r.1 ∈ env := by
  induction env with
  | nil => nomatch h
  | cons id rest ih =>
      rw [innermostFrame] at h
      split at h
      · cases h
        exact List.mem_cons_self
      · exact List.mem_cons_of_mem _ (ih h)

/-- An operation changes scopes of its own environment only. -/
theorem within_perform (s : Scopes) (env : Env) (op : ScopeOp) :
    Within env s (s.perform env op).1 := by
  cases op with
  | define name b =>
      cases env with
      | nil => exact .refl _ s
      | cons id rest => exact .update List.mem_cons_self
  | set name v =>
      rw [perform, set]
      cases s.assignFault? env name with
      | some c => exact .refl env s
      | none =>
          show Within env s (s.assign env name v)
          rw [assign]
          split
          · exact .refl env s
          · next h => exact .update (mem_of_resolve h)
  | importAs localName module =>
      cases env with
      | nil => exact .refl _ s
      | cons id rest => exact .update List.mem_cons_self
  | deferCall d =>
      show Within env s (s.deferCall env d)
      rw [deferCall]
      split
      · exact .refl env s
      · next h => exact .update (mem_of_innermostFrame h)
  | takeDeferred =>
      show Within env s (s.takeDeferred env).2
      cases env with
      | nil => exact .refl _ s
      | cons id rest =>
          rw [takeDeferred]
          split
          · exact .refl _ s
          · exact .update List.mem_cons_self
  | child | enter | snapshot => exact .add env s _

/-- An environment that is opened has one new scope; the others are those it was opened in. -/
theorem opened_perform {op : ScopeOp} (h : (s.perform env op).2 = some a) (hid : id ∈ a) :
    id = s.items.size ∧ id < (s.perform env op).1.items.size ∨ id ∈ env := by
  have hsize (sc : Scope) : s.items.size < (s.add sc).2.items.size := by simp [add]
  cases op with
  | define | importAs | deferCall | takeDeferred => nomatch h
  | set name v =>
      rw [perform] at h
      split at h <;> nomatch h
  | child | enter =>
      obtain rfl := Option.some.inj h
      rcases List.mem_cons.mp hid with rfl | hrest
      · exact .inl ⟨rfl, hsize _⟩
      · exact .inr hrest
  | snapshot =>
      obtain rfl := Option.some.inj h
      obtain rfl := List.mem_singleton.mp hid
      exact .inl ⟨rfl, hsize _⟩

end Scopes

/-! ### Two sides -/

/-- The sides of a snapshot. -/
inductive Side
  | original
  | copy
  deriving DecidableEq

namespace Side

def other : Side → Side
  | original => copy
  | copy => original

theorem other_other (x : Side) : x.other.other = x := by
  cases x <;> rfl

theorem other_ne (x : Side) : x.other ≠ x := by
  cases x <;> decide

end Side

/-- The scopes of a program with the environments of either side. -/
structure Fork where
  scopes : Scopes
  envs : Side → List Env

namespace Fork

variable {w w' : Fork} {side : Side}

/-- The fork at the moment of a snapshot, with environments that exist by then. -/
def start (s : Scopes) (env : Env) (existing : List Env) : Fork where
  scopes := (s.snapshot env).2
  envs
    | .original => existing
    | .copy => [(s.snapshot env).1]

/-- An operation in an environment of a side; what it opens is on that side too. -/
def after (w : Fork) (side : Side) (env : Env) (op : ScopeOp) : Fork where
  scopes := (w.scopes.perform env op).1
  envs x := if x = side then (w.scopes.perform env op).2.toList ++ w.envs x else w.envs x

/-- A step of one side. -/
inductive Step : Fork → Side → Fork → Prop
  | perform {w : Fork} {side : Side} {env : Env} (op : ScopeOp) (henv : env ∈ w.envs side) :
      Step w side (w.after side env op)

/-- Steps of the two sides in any order. -/
inductive Run : Fork → Fork → Prop
  | refl (w : Fork) : Run w w
  | step {w w' w'' : Fork} {side : Side} (hrun : Run w w') (hstep : Step w' side w'') : Run w w''

/-- Every environment is one of scopes that exist, and no scope is on both sides. -/
structure Apart (w : Fork) : Prop where
  exist : ∀ side, ∀ env ∈ w.envs side, ∀ id ∈ env, id < w.scopes.items.size
  disjoint : ∀ side, ∀ a ∈ w.envs side, ∀ b ∈ w.envs side.other, ∀ id ∈ a, id ∉ b

theorem apart_start {existing : List Env}
    (hexist : ∀ a ∈ existing, ∀ id ∈ a, id < s.items.size) :
    (start s env existing).Apart where
  exist
    | .original, a, ha, id, hid =>
        Nat.lt_of_lt_of_le (hexist a ha id hid) (Scopes.Within.add env s _).size_le
    | .copy, a, ha, id, hid => by
        obtain rfl := List.mem_singleton.mp ha
        obtain rfl := List.mem_singleton.mp hid
        simp [start, Scopes.snapshot, Scopes.add]
  disjoint
    | .original, a, ha, b, hb, id, hid, hid' => by
        obtain rfl := List.mem_singleton.mp hb
        exact Nat.ne_of_lt (hexist a ha id hid) (List.mem_singleton.mp hid')
    | .copy, a, ha, b, hb, id, hid, hid' => by
        obtain rfl := List.mem_singleton.mp ha
        exact Nat.ne_of_lt (hexist b hb id hid') (List.mem_singleton.mp hid)

/-- The environments of a side after a step: those it had, and one that was opened in one of
them. -/
theorem mem_envs_after {op : ScopeOp} {x : Side}
    (ha : a ∈ (w.after side env op).envs x) :
    a ∈ w.envs x ∨ x = side ∧ (w.scopes.perform env op).2 = some a := by
  rw [after] at ha
  dsimp only at ha
  split at ha
  · next hx =>
      rcases List.mem_append.mp ha with hopened | hold
      · exact .inr ⟨hx, Option.mem_toList.mp hopened⟩
      · exact .inl hold
  · exact .inl ha

/-- What a step opens has no scope of the other side: it has those of the environment it was opened
in, and one that no environment had. -/
theorem Apart.not_mem_of_opened
    {op : ScopeOp} {b c : Env} (hw : w.Apart) (henv : env ∈ w.envs side)
    (hopened : (w.scopes.perform env op).2 = some b) (hc : c ∈ w.envs side.other) (hid : id ∈ b) :
    id ∉ c := by
  rcases Scopes.opened_perform hopened hid with ⟨rfl, -⟩ | hin
  · exact fun hmem => Nat.lt_irrefl _ (hw.exist _ c hc _ hmem)
  · exact hw.disjoint side env henv c hc id hin

namespace Step

theorem apart (hstep : Step w side w') (hw : w.Apart) :
    w'.Apart := by
  obtain ⟨op, henv⟩ := hstep
  next env =>
  constructor
  case exist =>
    have hold (x : Side) (b : Env) (hb : b ∈ w.envs x) (id : ScopeId) (hid : id ∈ b) :
        id < (w.scopes.perform env op).1.items.size :=
      Nat.lt_of_lt_of_le (hw.exist x b hb id hid) (w.scopes.within_perform env op).size_le
    intro x b hb id hid
    rcases mem_envs_after hb with hb | ⟨-, hopened⟩
    · exact hold x b hb id hid
    · rcases Scopes.opened_perform hopened hid with ⟨-, hnew⟩ | hin
      · exact hnew
      · exact hold side env henv id hin
  case disjoint =>
    intro x b hb c hc id hid hid'
    rcases mem_envs_after hb with hb | ⟨rfl, hopened⟩
    · rcases mem_envs_after hc with hc | ⟨hside, hopened⟩
      · exact hw.disjoint x b hb c hc id hid hid'
      · rw [← x.other_other, hside] at hb
        exact hw.not_mem_of_opened henv hopened hb hid' hid
    · rcases mem_envs_after hc with hc | ⟨hside, -⟩
      · exact hw.not_mem_of_opened henv hopened hc hid hid'
      · exact x.other_ne hside

/-- What one side does is not seen on the other. -/
theorem view_eq (hstep : Step w side w') (hw : w.Apart) (ha : a ∈ w.envs side.other) :
    w'.scopes.view a = w.scopes.view a := by
  obtain ⟨op, henv⟩ := hstep
  next env =>
  refine Scopes.view_of_agree fun id hid => ?_
  exact (w.scopes.within_perform env op).scope_eq id (hw.exist _ a ha id hid)
    fun hmem => hw.disjoint side env henv a ha id hmem hid

end Step

theorem Run.apart (hrun : Run w w') (hw : w.Apart) :
    w'.Apart := by
  induction hrun with
  | refl => exact hw
  | step _ hstep ih => exact hstep.apart ih

end Fork

namespace Scopes

/-- A snapshot is one scope in which every name stands for what it stood for, and an assignment is
refused for the same cause, or accepted as well.  Taking it changes nothing of what code sees, and
whatever is done later on the two sides, in any order, no step of one side changes what code of the
other side sees. -/
theorem snapshot_isolates
    (s : Scopes) (env : Env) (existing : List Env)
    (hexist : ∀ a ∈ existing, ∀ id ∈ a, id < s.items.size) :
    let copy := (s.snapshot env).1
    let t := (s.snapshot env).2
    (∃ id, copy = [id]) ∧
      (∀ name, t.lookup copy name = s.lookup env name ∧ t.kind? copy name = s.kind? env name ∧
        t.declaredType copy name = s.declaredType env name) ∧
      t.receiver copy = s.receiver env ∧
      (∀ name v c, t.set copy name v = .error c ↔ s.set env name v = .error c) ∧
      (∀ a ∈ existing, t.view a = s.view a) ∧
      ∀ w, Fork.Run (.start s env existing) w → ∀ side w', Fork.Step w side w' →
        ∀ a ∈ w.envs side.other, w'.scopes.view a = w.scopes.view a := by
  intro copy t
  refine ⟨⟨_, snapshot_env s env⟩, fun name => ?_, receiver_snapshot s env, fun name v c => ?_,
    fun a ha => ?_, fun w hrun side w' hstep a ha => ?_⟩
  · exact ⟨lookup_snapshot s env name, kind?_snapshot s env name, declaredType_snapshot s env name⟩
  · rw [set_eq_error_iff, set_eq_error_iff, assignFault?_snapshot]
  · refine view_of_agree fun id hid => ?_
    exact (scope_add s _ id).trans (if_neg (Nat.ne_of_lt (hexist a ha id hid)))
  · exact hstep.view_eq (hrun.apart (Fork.apart_start hexist)) ha

/-- Scopes in which an inner `a` hides an outer one, and `b` is constant. -/
def shadowed : Scopes :=
  let outer := (root default).2.define [0] "a" ⟨.int 1, .letBinding, none⟩
  let outer := outer.define [0] "b" ⟨.int 1, .constBinding, none⟩
  (outer.child [0]).2.define [1, 0] "a" ⟨.int 2, .letBinding, some (.simple "Int")⟩

/-- The inner `a` is copied and `b` stays constant; a later `a` of the thread is its own. -/
theorem snapshot_isolates_shadowed :
    (∀ a ∈ [[1, 0], [0]], ∀ id ∈ a, id < shadowed.items.size) ∧
      (shadowed.snapshot [1, 0]).2.lookup (shadowed.snapshot [1, 0]).1 "a" = some (.int 2) ∧
      (shadowed.snapshot [1, 0]).2.set (shadowed.snapshot [1, 0]).1 "b" (.int 3) =
        .error (.immutable "constant" "b") ∧
      ((Fork.start shadowed [1, 0] [[1, 0], [0]]).after
        .copy [2] (.set "a" (.int 9))).scopes.lookup [1, 0] "a" = some (.int 2) := by
  have hexist : ∀ a ∈ [[1, 0], [0]], ∀ id ∈ a, id < shadowed.items.size := by decide
  obtain ⟨-, hnames, -, hset, -, hsteps⟩ := snapshot_isolates shadowed [1, 0] [[1, 0], [0]] hexist
  refine ⟨hexist, (hnames "a").1.trans (by rfl), (hset _ _ _).mpr (by rfl), ?_⟩
  have hview := hsteps _ (.refl _) .copy _ (.perform (.set "a" (.int 9)) List.mem_cons_self)
    [1, 0] List.mem_cons_self
  exact (congrFun (congrArg View.value hview) "a").trans (by rfl)

end Scopes
end ScriptEngine
