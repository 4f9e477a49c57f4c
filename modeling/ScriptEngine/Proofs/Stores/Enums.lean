import ScriptEngine.Proofs.Registry.Entry
import ScriptEngine.Proofs.Stores.Session

/-!
# The lookups of an enum

The constants of an enum are kept in two stores: the list of the constants in their order, and the table
of the static fields, where each has an entry under its name.  A declaration adds a constant to both, after
code of the program has built it, and then gives the static fields their first values in the same
table.

**Two stores.** `values` and `valueOf` ask the list, and a member of the enum is looked for in the
table.  The list finds the first constant of a name.  The table holds the last one, unless a static field of
that name has been filled, which takes the place of the constant.  So the lookups are inverse to each
other just as far as the names are distinct.

**Numbers.** In every state of every run a constant is an instance of its enum, it has the number of its
place in the list, and nothing that a program does can change a constant in the table.
-/

namespace ScriptEngine

/-- No constant of a list has a name. -/
def Builtin.Unnamed (name : String) (constants : List Value) : Prop :=
  ∀ v ∈ constants, Builtin.isConstant name v = false

/-! ### What the stores find -/

namespace Builtin

variable {constants : List Value} {name : String} {i : Nat} {v : Value}

theorem eq_take_cons_drop
    (hv : constants[i]? = some v) :
    constants = constants.take i ++ v :: constants.drop (i + 1) := by
  obtain ⟨hi, rfl⟩ := List.getElem?_eq_some_iff.mp hv
  rw [← List.drop_eq_getElem_cons hi, List.take_append_drop]

/-- A list finds a constant under its name if no earlier one has it. -/
theorem find?_isConstant
    (hv : constants[i]? = some v) (hname : isConstant name v = true)
    (hearlier : Unnamed name (constants.take i)) :
    constants.find? (isConstant name) = some v := by
  have hnone : (constants.take i).find? (isConstant name) = none :=
    List.find?_eq_none.mpr fun u hu => by simp [hearlier u hu]
  conv_lhs => rw [eq_take_cons_drop hv]
  rw [List.find?_append, hnone, Option.none_or]
  exact List.find?_cons_of_pos hname

/-- From behind, a list finds a constant under its name if no later one has it. -/
theorem find?_reverse_isConstant
    (hv : constants[i]? = some v) (hname : isConstant name v = true)
    (hlater : Unnamed name (constants.drop (i + 1))) :
    constants.reverse.find? (isConstant name) = some v := by
  have hnone : (constants.drop (i + 1)).reverse.find? (isConstant name) = none :=
    List.find?_eq_none.mpr fun u hu => by simp [hlater u (List.mem_reverse.mp hu)]
  conv_lhs => rw [eq_take_cons_drop hv]
  rw [List.reverse_append, List.reverse_cons, List.append_assoc, List.find?_append, hnone,
    Option.none_or]
  exact List.find?_cons_of_pos hname

end Builtin

/-! ### Lookups -/

namespace Heap

/-- The constants of an enum, in their order. -/
def constantsOf (h : Heap) (c : ClassDef) : List Value := (h.staticsOf c.id).constants

/-- No member of an enum has the name of one that every enum, or every constant, has anyway. -/
structure PlainEnum (h : Heap) (c : ClassDef) : Prop where
  kind : c.kind = .enumeration
  static : ∀ name ∈ ["values", "valueOf"], c.staticMethodsNamed name = [] ∧ h.classStatic? c name = none
  inner : ∀ name ∈ ["name", "ordinal"], c.usableMethods name = [] ∧
    ∀ o, .object o ∈ h.constantsOf c → h.field? o name = none

/-- A constant of an enum is found by the name and the number that it tells itself. -/
structure FindsConstant (h : Heap) (c : ClassDef) (i : Nat) (o : Instance) (name : String) : Prop where
  cls : o.cls = c
  named : ∀ E typeArgs env site ctx,
    Eval.callMember E (.object o) "name" [] typeArgs env site ctx h = .value (.str name) h
  numbered : ∀ E typeArgs env site ctx,
    Eval.callMember E (.object o) "ordinal" [] typeArgs env site ctx h = .value (Builtin.count i) h
  valueOf : Builtin.Unnamed name ((h.constantsOf c).take i) → ∀ E typeArgs env site ctx,
    Eval.callMember E (.classDef c) "valueOf" [.str name] typeArgs env site ctx h =
      .value (.object o) h
  read : Builtin.Unnamed name ((h.constantsOf c).drop (i + 1)) → name ∉ (h.staticsOf c.id).filled →
    ∀ env ctx, Eval.readMember (.classDef c) name env ctx h = .value (.object o) h

/-- The lookups of an enum are inverse to each other. -/
structure InvertsEnum (h : Heap) (c : ClassDef) : Prop where
  values : ∀ E args typeArgs env site ctx,
    Eval.callMember E (.classDef c) "values" args typeArgs env site ctx h =
      .value (.array h.arrays.size) (h.newArray (h.constantsOf c).toArray).2
  constants : ∀ (i : Nat) (v : Value), (h.constantsOf c)[i]? = some v →
    ∃ o name, v = .object o ∧ h.FindsConstant c i o name
  /-- A name that no constant has is refused. -/
  others : ∀ name, Builtin.Unnamed name (h.constantsOf c) → ∀ E typeArgs env site ctx,
    Eval.callMember E (.classDef c) "valueOf" [.str name] typeArgs env site ctx h =
      .raise (.fault (.ofCause (.other s!"no enum constant {c.name}.{name}")))
        (h.note (.faulted (.other s!"no enum constant {c.name}.{name}")))

namespace PlainEnum

variable {h : Heap} {c : ClassDef} {E : Engine} {args : List Value} {typeArgs : List TypeExpr}
variable {env : Env} {site : Span} {ctx : Context} {name : String}

/-- What every enum has is not hidden. -/
theorem callClass
    (hc : h.PlainEnum c) (hname : name ∈ ["values", "valueOf"]) :
    Eval.callMember E (.classDef c) name args typeArgs env site ctx h =
      Builtin.callClass c name args ctx h := by
  obtain ⟨hmethods, hstatic⟩ := hc.static name hname
  rw [Eval.callMember, Eval.callClassMember, hmethods]
  dsimp only
  rw [Eval.heap_bind_apply, hstatic]
  rfl

/-- What every constant has is not hidden. -/
theorem callInstance
    {o : Instance} (hc : h.PlainEnum c) (ho : .object o ∈ h.constantsOf c) (hcls : o.cls = c)
    (hname : name ∈ ["name", "ordinal"]) :
    Eval.callMember E (.object o) name args typeArgs env site ctx h =
      Eval.ofExcept (Builtin.callInstance h o name args) ctx h := by
  obtain ⟨hmethods, hfields⟩ := hc.inner name hname
  rw [Eval.callMember, Eval.callInstanceMember, hcls, hmethods]
  dsimp only
  rw [Eval.heap_bind_apply, hfields o ho]
  rfl

/-- `valueOf` asks the list of the constants. -/
theorem callValueOf
    (hc : h.PlainEnum c) (name : String) :
    Eval.callMember E (.classDef c) "valueOf" [.str name] typeArgs env site ctx h =
      Eval.ofExcept (match (h.constantsOf c).find? (Builtin.isConstant name) with
        | some v => .ok v
        | none => .error (.other s!"no enum constant {c.name}.{name}")) ctx h := by
  rw [hc.callClass (by simp), Builtin.callClass, Eval.heap_bind_apply, hc.kind]
  rfl

end PlainEnum

/-- A member of an enum is looked for in the table of its static fields first. -/
theorem readMember_of_static
    {h : Heap} {c : ClassDef} {name : String} {slot : StaticField}
    (hslot : (h.staticsOf c.id).slots.find? name = some slot) (env : Env) (ctx : Context) :
    Eval.readMember (.classDef c) name env ctx h = .value slot.value h := by
  have hfound : h.classStatic? c name = some slot.value := by
    rw [classStatic?, staticHome?, ClassDef.lineage, List.findSome?_cons, static?, hslot]
    rfl
  rw [Eval.readMember, Eval.getClassMember, Eval.heap_bind_apply, hfound]
  rfl

end Heap

/-! ### Constants in their places -/

namespace Statics.Numbered

variable {h : Heap} {w : World} {c : ClassDef} {room : Nat}

/-- A constant in its place is found by its name and its number. -/
theorem findsConstant
    {i : Nat} {o : Instance} {name : String} (hs : (h.staticsOf c.id).Numbered w c.id)
    (hc : h.PlainEnum c) (hcls : o.cls = c) (hconstant : o.constant = some (name, i))
    (hi : (h.constantsOf c)[i]? = some (.object o)) :
    h.FindsConstant c i o name := by
  have hmem : Value.object o ∈ h.constantsOf c := List.mem_of_getElem? hi
  have hname : Builtin.isConstant name (.object o) = true := by
    rw [Builtin.isConstant_object hconstant, beq_self_eq_true]
  refine ⟨hcls, fun E typeArgs env site ctx => ?_, fun E typeArgs env site ctx => ?_,
    fun hearlier E typeArgs env site ctx => ?_, fun hlater hfilled env ctx => ?_⟩
  · have hcall : Builtin.callInstance h o "name" [] = .ok (.str name) := by
      simp [Builtin.callInstance, hconstant, pure, Except.pure]
    rw [hc.callInstance hmem hcls (by simp), hcall]
    rfl
  · have hcall : Builtin.callInstance h o "ordinal" [] = .ok (Builtin.count i) := by
      simp [Builtin.callInstance, hconstant, pure, Except.pure]
    rw [hc.callInstance hmem hcls (by simp), hcall]
    rfl
  · rw [hc.callValueOf, Builtin.find?_isConstant hi hname hearlier]
    rfl
  · have hslot := hs.slots name hfilled
    have hlast := Builtin.find?_reverse_isConstant hi hname hlater
    rw [Heap.constantsOf] at hlast
    rw [hlast] at hslot
    exact Heap.readMember_of_static hslot env ctx

/-- In a world that tells classes apart, the lookups of an enum are inverse to each other. -/
theorem invertsEnum
    (hs : (h.staticsOf c.id).Numbered w c.id) (hclasses : ClassesFit w room) (hknown : .cls c ∈ w)
    (hc : h.PlainEnum c) :
    h.InvertsEnum c where
  values E args typeArgs env site ctx := by
    rw [hc.callClass (by simp), Builtin.callClass, Eval.heap_bind_apply, hc.kind]
    rfl
  constants i v hv := by
    obtain ⟨o, name, rfl, ho, hid, hconstant⟩ := hs.constants i v hv
    have hcls : o.cls = c :=
      hclasses.eq (knows_class.mp (knows_instance.mp ho).2).1 hknown hid
    exact ⟨o, name, rfl, hs.findsConstant hc hcls hconstant hv⟩
  others name hnone E typeArgs env site ctx := by
    rw [hc.callValueOf, List.find?_eq_none.mpr fun v hv => by simp [hnone v hv]]
    rfl

end Statics.Numbered

/-! ### Runs -/

namespace Session

/-- At every moment of a run, and in every state between the moments, the lookups of an enum are inverse
to each other: in whatever heap its static fields are as they are in that state. -/
def InvertsEnums (s : Session) (p : Program) : Prop :=
  ∀ r ws h, Eval.Reaches s.limit (s.begin p) s.waiting r ws → r.heap? = some h →
    ∀ c, .cls c ∈ carried h → ∀ h' : Heap,
      h'.staticsOf c.id ∈ (h.statics.getD c.id default).states → h'.PlainEnum c → h'.InvertsEnum c

/-- In every run of every program the lookups of each enum are inverse to each other, as far as the names
of its constants are distinct from each other and from those of its static fields. -/
theorem after_invertsEnums
    (limit : Nat) (actions : List Action) (p : Program) :
    (after limit actions).InvertsEnums p := by
  intro r ws h hreach hh c hc h' hstate hplain
  obtain ⟨w, hfits⟩ := (((Stocked.after limit actions).begin p).reaches hreach).fits hh
  exact (hfits.numbered c.id _ hstate).invertsEnum hfits.classes (hfits.known hc) hplain

end Session

/-- Two constants of one name, and the number of the one that the name of the second stands for. -/
def Eval.twinProgram : List Stmt :=
  let enum : Expr := .identifier "E" default
  let call (e : Expr) (name : String) (args : List Expr) : Expr :=
    .call (.member e name default) [] args default
  [.enumDecl
    { name := "E", isSealed := false, permits := [], interfaces := []
      constants := [⟨"A", [], default⟩, ⟨"A", [], default⟩]
      fields := [], methods := [], constructors := [], span := default },
   .expression
    (call (call enum "valueOf"
      [call (.index (call enum "values" []) (.int 1 default) default) "name" []]) "ordinal" [])
    default]

-- where two constants share a name, `valueOf` finds the first one only
example :
    (Eval.execBody Eval.engine Eval.twinProgram Eval.bareScope.1 (.ofLimit 3)
      Eval.bareScope.2).hands (fun v h => h.equals v (.int 0)) = true := by
  decide +kernel

end ScriptEngine
