import ScriptEngine.Proofs.Evaluation.Checks
import ScriptEngine.Proofs.Stores.Session

/-!
# What must not change

A field that is final or constant, and a component of a record, stays as it is from the end of the
construction on; a constant or final static field, and the list of the constants of an enum, stay as
they are from the end of the declaration on.

**Between moments.** `Heap.KeepsImmutable` compares the heaps of two moments, whatever programs and
threads ran in between.

**Between states.** A stretch of a thread goes through many states.  Every state that an instance was
ever in is told by its trail, and each of them precedes every later one.

**Attempts.** An assignment to what must not change ends with a fault, and nothing but the history
tells of it.
-/

namespace ScriptEngine

/-! ### Between moments -/

/-- What must not change in a heap is in a later one as it was. -/
structure Heap.KeepsImmutable (h h' : Heap) : Prop where
  fields : ∀ id < h.objects.size, (h.object id).constructing = false → ∀ name,
    (h.object id).self.Immutable name →
      (h'.object id).fields.find? name = (h.object id).fields.find? name
  slots : ∀ id < h.statics.size, (h.staticsOf id).declared = true → ∀ name slot,
    h.static? id name = some slot → slot.kind.isImmutable = true → h'.static? id name = some slot
  constants : ∀ id < h.statics.size, (h.staticsOf id).declared = true →
    (h'.staticsOf id).constants = (h.staticsOf id).constants

/-- What was before is what is now, or it was related to it. -/
theorem Traced.Kept.of_suffix
    {α : Type} {R : α → α → Prop} {t t' : Traced α}
    (hkept : t'.Kept R) (hsuffix : t.states <:+ t'.states) :
    t'.now = t.now ∨ R t.now t'.now := by
  obtain ⟨later, hlater⟩ := hsuffix
  cases later with
  | nil =>
      exact .inl (List.cons.inj hlater).1.symm
  | cons a later =>
      have hnow : t'.now = a := (List.cons.inj hlater).1.symm
      have hmem : t.now ∈ later ++ t.states :=
        List.mem_append_right _ List.mem_cons_self
      rw [Traced.Kept, ← hlater, List.cons_append, List.pairwise_cons] at hkept
      rw [hnow]
      exact .inr (hkept.1 _ hmem)

/-- What is traced in a heap precedes what is in its place later on. -/
theorem Traced.Continues.kept
    {α : Type} [Inhabited α] {R : α → α → Prop} {ts ts' : Array (Traced α)}
    (hgoes : Traced.Continues ts ts') (hkept : ∀ t ∈ ts', t.Kept R) {id : Nat} (hid : id < ts.size) :
    (ts'.getD id default).now = (ts.getD id default).now ∨
      R (ts.getD id default).now (ts'.getD id default).now := by
  have hmem : ts'.getD id default ∈ ts' := by
    have hid' : id < ts'.size := hid.trans_le hgoes.size
    simp [Array.getD, hid']
  exact (hkept _ hmem).of_suffix (hgoes.states id hid)

/-- Whatever continues a heap and fits a world keeps what must not change. -/
theorem Heap.Continues.keepsImmutable
    {h h' : Heap} {w : World} (hgoes : h.Continues h') (hfits : Fits w h') :
    h.KeepsImmutable h' := by
  have hobject {id : Nat} (hid : id < h.objects.size) :
      h'.object id = h.object id ∨ (h.object id).Precedes (h'.object id) :=
    hgoes.objects.kept hfits.objects.orderly.kept hid
  have hstatics {id : Nat} (hid : id < h.statics.size) :
      h'.staticsOf id = h.staticsOf id ∨ (h.staticsOf id).Precedes (h'.staticsOf id) :=
    hgoes.statics.kept hfits.statics.kept hid
  refine ⟨fun id hid hdone name himmutable => ?_, fun id hid hdone name slot hslot himmutable => ?_,
    fun id hid hdone => ?_⟩
  · rcases hobject hid with heq | hprecedes
    · rw [heq]
    · exact hprecedes.fields hdone name himmutable
  · rcases hstatics hid with heq | hprecedes
    · rw [Heap.static?, heq]
      exact hslot
    · exact hprecedes.slots hdone name slot hslot himmutable
  · rcases hstatics hid with heq | hprecedes
    · rw [heq]
    · exact hprecedes.constants hdone

/-! ### Attempts -/

/-- An evaluation ends with a fault, and changes nothing but the history. -/
def Res.Refused {α : Type} (r : Res α) (h : Heap) : Prop :=
  ∃ cause, r = .raise (.fault (.ofCause cause)) (h.note (.faulted cause))

/-- Nothing is stored if there is a fault. -/
theorem Eval.stored_refused
    {fault? : Option Cause} {f : Heap → Heap} {h : Heap} (hfault : fault?.isSome) :
    (stored fault? f h).Refused h := by
  obtain ⟨cause, rfl⟩ := Option.isSome_iff_exists.mp hfault
  exact ⟨cause, rfl⟩

/-- An assignment to a field that must not change is refused. -/
theorem Eval.assignField_refused
    {o : Instance} {name : String} {h : Heap} (v : Value) (env : Env) (c : Context)
    (himmutable : o.Immutable name) (hdone : (h.object o.id).constructing = false) :
    (assignField o name v env c h).Refused h := by
  rw [assignField_apply]
  refine stored_refused ?_
  unfold assignFieldFault?
  split
  · rfl
  · next hkind =>
      obtain ⟨d, f, hfield, hkept⟩ := himmutable.resolve_left (by simpa using hkind)
      have hfault : (fieldFault? h o f name).isSome := by
        simp [fieldFault?, hkept, hdone]
      rw [hfield]
      obtain ⟨cause, hcause⟩ := Option.isSome_iff_exists.mp hfault
      cases haccess : accessFault? h f.visibility name d.name env with
      | some other =>
          simp [haccess]
      | none =>
          simp [haccess, hcause]

/-- An assignment to a static field that must not change is refused. -/
theorem Eval.assignStatic_refused
    {cls owner : ClassDef} {slot : StaticField} {name : String} {h : Heap} (v : Value) (c : Context)
    (hhome : h.staticHome? cls name = some (owner, slot)) (himmutable : slot.kind.isImmutable = true) :
    (assignStatic cls name v c h).Refused h := by
  rw [assignStatic_apply]
  refine stored_refused ?_
  unfold assignStaticFault?
  rw [hhome]
  simp [himmutable]

/-- What an assignment to a member of a value must not change. -/
inductive Heap.Forbids (h : Heap) (name : String) : Value → Prop
  | field {o : Instance} :
      o.Immutable name → (h.object o.id).constructing = false → Forbids h name (.object o)
  | static {cls owner : ClassDef} {slot : StaticField} :
      h.staticHome? cls name = some (owner, slot) → slot.kind.isImmutable = true →
      Forbids h name (.classDef cls)
  | interface (i : Interface) : Forbids h name (.interfaceDef i)

/-- An assignment to a member that must not change is refused. -/
theorem Heap.Forbids.refused
    {h : Heap} {name : String} {target : Value} (hforbids : h.Forbids name target) (v : Value)
    (env : Env) (c : Context) :
    (Eval.writeMember target name v env c h).Refused h := by
  cases hforbids with
  | field himmutable hdone =>
      exact Eval.assignField_refused v env c himmutable hdone
  | static hhome himmutable =>
      exact Eval.assignStatic_refused v c hhome himmutable
  | interface i =>
      exact ⟨_, rfl⟩

/-! ### Runs -/

namespace Session

/-- How a run treats what must not change. -/
structure RespectsImmutable (s : Session) (p : Program) : Prop where
  /-- From one moment to a later one, what must not change stays as it is. -/
  moments : ∀ r ws h r' ws' h', Eval.Reaches s.limit (s.begin p) s.waiting r ws →
    Eval.Reaches s.limit r ws r' ws' → r.heap? = some h → r'.heap? = some h' → h.KeepsImmutable h'
  /-- What earlier programs have left behind stays as it is. -/
  earlier : ∀ r ws h, Eval.Reaches s.limit (s.begin p) s.waiting r ws → r.heap? = some h →
    s.heap.KeepsImmutable h
  /-- So does what must not change from one state to the next. -/
  states : ∀ r ws h, Eval.Reaches s.limit (s.begin p) s.waiting r ws → r.heap? = some h →
    (∀ t ∈ h.objects, t.Kept ObjectState.Precedes) ∧ ∀ t ∈ h.statics, t.Kept Statics.Precedes
  /-- An attempt to change it is refused. -/
  attempts : ∀ (h : Heap) (name : String) (target v : Value) (env : Env) (c : Context),
    h.Forbids name target → (Eval.writeMember target name v env c h).Refused h

/-- In every run of every program nothing changes that must not change. -/
theorem after_respectsImmutable
    (limit : Nat) (actions : List Action) (p : Program) :
    (after limit actions).RespectsImmutable p := by
  have hstocked := Stocked.after limit actions
  generalize after limit actions = s at hstocked ⊢
  have hsteady := hstocked.begin p
  refine ⟨fun r ws h r' ws' h' hreach hreach' hh hh' => ?_, fun r ws h hreach hh => ?_,
    fun r ws h hreach hh => ?_, fun h name target v env c hforbids => hforbids.refused v env c⟩
  · have hthen := hsteady.reaches hreach
    obtain ⟨w, hfits⟩ := (hthen.reaches hreach').fits hh'
    exact (hthen.reaches_along hreach' hh hh').keepsImmutable hfits
  · obtain ⟨w, hfits⟩ := (hsteady.reaches hreach).fits hh
    refine Heap.Continues.keepsImmutable ?_ hfits
    obtain ⟨ks, lost, -, hshared⟩ := hstocked
    have hrun := runIn_ends s.env p.statements s.limit hshared.cons_idle
    cases hfirst : (s.begin p).heap? with
    | none =>
        rw [hreach.eq_of_heap?_eq_none hfirst, hfirst] at hh
        cases hh
    | some h₁ =>
        exact (hrun.along hfirst).trans (hsteady.reaches_along hreach hfirst hh)
  · obtain ⟨w, hfits⟩ := (hsteady.reaches hreach).fits hh
    exact ⟨hfits.objects.orderly.kept, hfits.statics.kept⟩

end Session
end ScriptEngine
