import ScriptEngine.Typing.Conform

/-!
# The type of an object

There are two tests of whether an object is of a type.  `instanceOf` looks at the object itself, and
carries its type arguments up to the ancestor that is asked for; `isSubtype` looks at its runtime
type, which has the type arguments of the object's own class.

Both agree on the name.  On type arguments they agree just if those that are carried up meet the ones
that are asked for whenever the object's own do (`instanceOf_eq_isSubtype_iff`).  So it is for the own
class of an object; an ancestor that is given other arguments tells the two tests apart.
-/

namespace ScriptEngine

/-- Whether type arguments meet those asked for; where there are none, nothing is asked. -/
def Typing.Meets (reg : Registry) (actual requested : List TypeExpr) : Prop :=
  actual = [] ∨ requested = [] ∨ argsMatch reg actual requested = true

namespace Instance

/-- The type arguments of an instance, carried up to the ancestor of a name. -/
def passedArgs (o : Instance) (target : String) : List TypeExpr :=
  (o.cls.own.argsAlong target o.typeArgs o.cls.ancestors).getD []

/-- The type arguments in the runtime type of an instance. -/
def shownArgs (o : Instance) : List TypeExpr :=
  if o.cls.kind = .cls ∧ areAllAny o.typeArgs = false then o.typeArgs else []

/-- Whether the class of an instance is declared, under a name that no builtin type has. -/
structure IsDeclared (o : Instance) (h : Heap) : Prop where
  registered : Registry.cls? h.registry o.cls.name = some o.cls
  proper : typeAliases.lookup o.cls.name.toLower = none

end Instance

theorem TypeExpr.isAny_named_of_ne
    {name : String} (hname : canonicalName name ≠ "Any") (args : List TypeExpr) :
    (named name args).isAny = false := by
  cases args with
  | nil =>
      simpa [isAny] using hname
  | cons a as =>
      rfl

/-- Arguments that are carried up say something. -/
theorem ClassLayer.argsAlong_ne_nil
    {target : String} {args actual : List TypeExpr} {l : ClassLayer} {ls : List ClassLayer}
    (h : l.argsAlong target args ls = some actual) :
    actual ≠ [] := by
  induction ls generalizing l args with
  | nil =>
      rw [argsAlong] at h
      split at h
      · next hsays =>
          cases h
          rintro rfl
          simp [areAllAny] at hsays
      · cases h
  | cons next rest ih =>
      rw [argsAlong] at h
      split at h
      · split at h
        · cases h
        · next hsays =>
            cases h
            rintro rfl
            exact hsays rfl
      · exact ih h

namespace Instance.IsDeclared

variable {o : Instance} {h : Heap}

theorem canonicalName_eq
    (ho : o.IsDeclared h) :
    canonicalName o.cls.name = o.cls.name := by
  rw [canonicalName, ho.proper, Option.getD_none]

/-- A name that builtin types have in some spelling is none of a declared class. -/
theorem name_ne
    (ho : o.IsDeclared h) {name : String} (hname : (typeAliases.lookup name.toLower).isSome = true) :
    o.cls.name ≠ name := by
  rintro rfl
  rw [ho.proper] at hname
  cases hname

/-- By its name a declared class is what it is by its ancestors. -/
theorem isSubtype_iff
    (ho : o.IsDeclared h) (name : String) :
    Registry.isSubtype h.registry o.cls.name name = true ↔ o.cls.isA name = true := by
  have hfind : h.registry.find? o.cls.name = some (.cls o.cls) := Registry.find?_of_cls? ho.registered
  have hself : o.cls.isA o.cls.name = true := by
    simp [ClassDef.isA, ClassDef.layers, ClassDef.layerIs, ClassDef.name]
  rw [Registry.isSubtype, hfind, Bool.or_eq_true, beq_iff_eq]
  constructor
  · rintro (rfl | hisA)
    · exact hself
    · exact hisA
  · exact .inr

end Instance.IsDeclared

namespace Heap

variable {h : Heap} {o : Instance} {name : String} {args : List TypeExpr}

/-- `instanceOf` asks for the arguments that are carried up. -/
theorem instanceOf_object_iff
    (hany : canonicalName name ≠ "Any") :
    h.instanceOf (.object o) (.named name args) = true ↔
      o.cls.isA (canonicalName name) = true ∧
        Typing.Meets h.registry (o.passedArgs (canonicalName name)) args := by
  rw [instanceOf, namedInstance, Bool.and_eq_true]
  have hhead : headFits (.object o) (canonicalName name) = o.cls.isA (canonicalName name) := by
    simp [headFits, hany]
  rw [hhead]
  refine and_congr_right fun _ => ?_
  rw [Bool.or_eq_true, List.isEmpty_iff, argsSeenAs, Instance.passedArgs, Typing.Meets]
  cases hpassed : o.cls.own.argsAlong (canonicalName name) o.typeArgs o.cls.ancestors with
  | none =>
      simp [elementsByArg]
  | some actual =>
      simp [ClassLayer.argsAlong_ne_nil hpassed]

/-- The runtime type of an object has the arguments of its own class. -/
theorem runtimeType_object :
    h.runtimeType (.object o) = .named o.cls.name o.shownArgs := by
  obtain ⟨n, hn⟩ : ∃ n, h.depthLimit = n + 1 := ⟨_, rfl⟩
  rw [runtimeType, hn, runtimeTypeWithin, Instance.shownArgs]
  cases o.cls.kind <;> cases areAllAny o.typeArgs <;> rfl

/-- `isSubtype` asks for the arguments of the object's own class. -/
theorem isSubtype_runtimeType_iff
    (ho : o.IsDeclared h) (hany : canonicalName name ≠ "Any") :
    Typing.isSubtype h.registry (h.runtimeType (.object o)) (.named name args) = true ↔
      o.cls.isA (canonicalName name) = true ∧ Typing.Meets h.registry o.shownArgs args := by
  have hactual : (TypeExpr.named o.cls.name o.shownArgs).isAny = false := by
    refine TypeExpr.isAny_named_of_ne ?_ _
    rw [ho.canonicalName_eq]
    exact ho.name_ne (by decide +kernel)
  have hhead : (Typing.sameHead o.cls.name (canonicalName name) ||
      Registry.isSubtype h.registry o.cls.name (canonicalName name)) =
      o.cls.isA (canonicalName name) := by
    rw [Bool.eq_iff_iff, Bool.or_eq_true, ho.isSubtype_iff, or_iff_right_of_imp]
    intro hsame
    have hint : o.cls.name ≠ "Int" := ho.name_ne (by decide +kernel)
    have hfloat : o.cls.name ≠ "Float" := ho.name_ne (by decide +kernel)
    have hself := (ho.isSubtype_iff o.cls.name).mp (by simp [Registry.isSubtype])
    simp only [Typing.sameHead, Bool.or_eq_true, Bool.and_eq_true, beq_iff_eq, hint, hfloat,
      or_self, and_false, or_false] at hsame
    rwa [← hsame]
  rw [runtimeType_object, Typing.isSubtype, hactual, TypeExpr.isAny_named_of_ne hany]
  simp only [Bool.or_self, Bool.false_eq_true, if_false]
  rw [ho.canonicalName_eq, hhead]
  simp [Typing.Meets, List.isEmpty_iff, or_assoc]

/-- The two tests agree on an object and a named type just if the arguments that are carried up and
those of its own class do, where it is of a type of that name at all. -/
theorem instanceOf_eq_isSubtype_iff
    (ho : o.IsDeclared h) (hany : canonicalName name ≠ "Any") :
    h.instanceOf (.object o) (.named name args) =
        Typing.isSubtype h.registry (h.runtimeType (.object o)) (.named name args) ↔
      (o.cls.isA (canonicalName name) = true →
        (Typing.Meets h.registry (o.passedArgs (canonicalName name)) args ↔
          Typing.Meets h.registry o.shownArgs args)) := by
  rw [Bool.eq_iff_iff, instanceOf_object_iff hany, isSubtype_runtimeType_iff ho hany]
  exact and_congr_right_iff

/-- A class of boxes, and one that is a box of integers. -/
def boxLayer : ClassLayer :=
  { (default : ClassLayer) with
    name := "Box"
    typeParams := [{ name := "T", bound := none, variance := .invariant, variadic := false }]
    owned := nofun }

def intBoxClass : ClassDef :=
  let own : ClassLayer :=
    { (default : ClassLayer) with
      name := "IntBox"
      typeParams := []
      parentArgs := [.simple "Int"]
      owned := nofun }
  ⟨own, [boxLayer]⟩

/-- A box of integers is no box of strings, but its runtime type passes for that of one. -/
theorem instanceOf_ne_isSubtype_intBox :
    let h : Heap := { Heap.empty with registry := (∅ : Registry).put (.cls intBoxClass) }
    let o : Instance := ⟨0, intBoxClass, [], none⟩
    o.IsDeclared h ∧ canonicalName "Box" ≠ "Any" ∧
      h.instanceOf (.object o) (.named "Box" [.simple "String"]) ≠
        Typing.isSubtype h.registry (h.runtimeType (.object o)) (.named "Box" [.simple "String"]) := by
  intro h o
  have hdeclared : o.IsDeclared h := ⟨rfl, by decide +kernel⟩
  have hbox : canonicalName "Box" = "Box" := by decide +kernel
  have hany : canonicalName "Box" ≠ "Any" := by
    rw [hbox]
    decide
  refine ⟨hdeclared, hany, fun hagree => ?_⟩
  have hmeets := (instanceOf_eq_isSubtype_iff hdeclared hany).mp hagree
  rw [hbox] at hmeets
  have hpassed : o.passedArgs "Box" = [.simple "Int"] := by
    have hsays : areAllAny [.named "Int" []] = false := by decide +kernel
    simp [Instance.passedArgs, ClassLayer.argsAlong, o, intBoxClass, boxLayer, hsays,
      TypeExpr.substitute, TypeExpr.simple, pairParams, Bindings.get?]
  have hshown : o.shownArgs = [] := by rfl
  have hint : Typing.argsMatch h.registry [.simple "Int"] [.simple "String"] = false := by
    have hargs : canonicalName "Int" = "Int" ∧ canonicalName "String" = "String" := by decide +kernel
    simp [Typing.argsMatch, Typing.argFits, TypeExpr.simple, TypeExpr.isAny, Typing.sameHead, hargs]
  have hwrong := (hmeets (by decide +kernel)).mpr (.inl hshown)
  simp [Typing.Meets, hpassed, hint] at hwrong

end Heap
end ScriptEngine
