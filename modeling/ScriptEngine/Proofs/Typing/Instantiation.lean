import Mathlib.Data.List.Nodup
import ScriptEngine.Proofs.Typing.Renaming
import ScriptEngine.Proofs.Typing.Nominal

/-!
# The instantiation of an ancestor

Two computations carry the type arguments of an instance up its lineage, and say at a class of a name
what they have become.  `bindingsAt` pairs them with the parameters of that class, for the values that
are checked there; `argsSeenAs` gives the list itself, for the test of the language.

**Ladder.** Both climb the same rungs (`ladder`): a layer, and the arguments that are handed up to it.
They stop at the first rung of the name, so they are two readings of one search (`bindingsAt_eq`,
`argsSeenAs_eq`).

**Rungs.** A parameter stands for the argument in its place, or for the type of all values where there
is none (`get?_pairParams`).  The list is left out where all of it is that type.  It is so in any
spelling, while the bindings keep the spelling: an object of a class that is named like one is bound
as it is (`bindingsAt_ne_seenArg_anyPair`).  No value can tell the spellings apart (`fits_of_isAny`).
-/

namespace ScriptEngine

/-! ### Parameters and their arguments -/

/-- A parameter with a name of its own stands for the argument in its place. -/
theorem get?_pairParams
    {ps : List TypeParam} {args : List TypeExpr} {i : Nat} {p : TypeParam}
    (hps : (ps.map (·.name)).Nodup) (hp : ps[i]? = some p) :
    (pairParams ps args).get? p.name = some (args[i]?.getD .any) := by
  induction ps generalizing args i with
  | nil =>
      cases hp
  | cons q ps ih =>
      obtain ⟨hq, hrest⟩ := List.nodup_cons.mp hps
      obtain ⟨a, as, hpair, hhead, htail⟩ : ∃ a as,
          pairParams (q :: ps) args = (q.name, a) :: pairParams ps as ∧
            a = args[0]?.getD .any ∧ ∀ j : Nat, as[j]? = args[j + 1]? := by
        cases args with
        | nil =>
            exact ⟨.any, [], rfl, rfl, fun _ => rfl⟩
        | cons a as =>
            exact ⟨a, as, rfl, rfl, fun _ => rfl⟩
      rw [hpair, Bindings.get?_cons]
      cases i with
      | zero =>
          cases hp
          have hnone : (pairParams ps as).get? p.name = none := by
            refine get?_pairParams_eq_none_iff.mpr ?_
            rintro ⟨r, hr, hname⟩
            exact hq (List.mem_map.mpr ⟨r, hr, hname⟩)
          rw [hnone, Option.none_or, if_pos rfl, hhead]
      | succ i =>
          have hget : (pairParams ps as).get? p.name = some (as[i]?.getD .any) := ih hrest hp
          rw [hget, Option.some_or, htail]

/-! ### The ladder -/

namespace ClassLayer

/-- The layers of a lineage with the type arguments that are handed up to them. -/
def ladder (args : List TypeExpr) : List ClassLayer → List (ClassLayer × List TypeExpr)
  | [] => []
  | l :: ls =>
    (l, args) :: ladder (l.parentArgs.map (TypeExpr.substitute (pairParams l.typeParams args))) ls

theorem map_fst_ladder
    (args : List TypeExpr) (ls : List ClassLayer) :
    (ladder args ls).map (·.1) = ls := by
  induction ls generalizing args with
  | nil =>
      rfl
  | cons l ls ih =>
      rw [ladder, List.map_cons, ih]

theorem bindingsAlong_eq_ladder
    (name : String) (args : List TypeExpr) (l : ClassLayer) (ls : List ClassLayer) :
    l.bindingsAlong name args ls =
      match (ladder args (l :: ls)).find? (·.1.name == name) with
      | some rung => pairParams rung.1.typeParams rung.2
      | none => [] := by
  induction ls generalizing args l with
  | nil =>
      rw [bindingsAlong, ladder, List.find?_cons, ladder, List.find?_nil]
      cases l.name == name <;> rfl
  | cons next rest ih =>
      rw [bindingsAlong, ladder, List.find?_cons, ih]
      cases l.name == name <;> rfl

theorem argsAlong_eq_ladder
    (name : String) (args : List TypeExpr) (l : ClassLayer) (ls : List ClassLayer) :
    l.argsAlong name args ls =
      match (ladder args (l :: ls)).find? (·.1.name == name) with
      | some rung => if areAllAny rung.2 then none else some rung.2
      | none => none := by
  induction ls generalizing args l with
  | nil =>
      rw [argsAlong, ladder, List.find?_cons, ladder, List.find?_nil]
      cases l.name == name with
      | false =>
          rfl
      | true =>
          cases hany : areAllAny args <;> simp [hany]
  | cons next rest ih =>
      rw [argsAlong, ladder, List.find?_cons, ih]
      cases l.name == name <;> rfl

end ClassLayer

namespace Instance

/-- The rungs from the class of an instance up. -/
def ladder (o : Instance) : List (ClassLayer × List TypeExpr) := ClassLayer.ladder o.typeArgs o.cls.layers

/-- What the test of the language takes a type parameter of a class for. -/
def seenArg (o : Instance) (name : String) (i : Nat) : TypeExpr :=
  ((Heap.argsSeenAs (.object o) name).getD [])[i]?.getD .any

variable {o : Instance} {name : String} {d : ClassLayer}

theorem bindingsAt_eq
    (o : Instance) (name : String) :
    o.bindingsAt name =
      match o.ladder.find? (·.1.name == name) with
      | some rung => pairParams rung.1.typeParams rung.2
      | none => [] :=
  ClassLayer.bindingsAlong_eq_ladder name o.typeArgs o.cls.own o.cls.ancestors

theorem argsSeenAs_eq
    (o : Instance) (name : String) :
    Heap.argsSeenAs (.object o) name =
      match o.ladder.find? (·.1.name == name) with
      | some rung => if areAllAny rung.2 then none else some rung.2
      | none => none :=
  ClassLayer.argsAlong_eq_ladder name o.typeArgs o.cls.own o.cls.ancestors

section Rung

variable {as : List TypeExpr} (hrung : o.ladder.find? (·.1.name == name) = some (d, as))
include hrung

theorem bindingsAt_of_rung :
    o.bindingsAt name = pairParams d.typeParams as := by
  rw [bindingsAt_eq, hrung]

theorem argsSeenAs_of_rung :
    Heap.argsSeenAs (.object o) name = if areAllAny as then none else some as := by
  rw [argsSeenAs_eq, hrung]

theorem seenArg_of_rung
    (i : Nat) :
    o.seenArg name i = if areAllAny as then .any else as[i]?.getD .any := by
  rw [seenArg, argsSeenAs_of_rung hrung]
  cases areAllAny as <;> rfl

end Rung

/-- Among layers of different names each one is found on the ladder. -/
theorem exists_rung
    (hnames : (o.cls.layers.map (·.name)).Nodup) (hd : d ∈ o.cls.layers) :
    ∃ as, o.ladder.find? (·.1.name == d.name) = some (d, as) := by
  have hlayers : o.ladder.map (·.1) = o.cls.layers := ClassLayer.map_fst_ladder _ _
  rw [← hlayers] at hd
  obtain ⟨⟨d, as⟩, hrung, rfl⟩ := List.mem_map.mp hd
  have hsome : (o.ladder.find? (·.1.name == d.name)).isSome = true :=
    List.find?_isSome.mpr ⟨(d, as), hrung, beq_self_eq_true _⟩
  obtain ⟨rung, hfound⟩ := Option.isSome_iff_exists.mp hsome
  have hname : rung.1.name = d.name :=
    beq_iff_eq.mp (List.find?_some (p := fun r : ClassLayer × List TypeExpr => r.1.name == d.name) hfound)
  have hdistinct : (o.ladder.map (·.1.name)).Nodup := by
    rw [← hlayers, List.map_map] at hnames
    exact hnames
  have hsame : rung = (d, as) :=
    List.inj_on_of_nodup_map hdistinct (List.mem_of_find?_eq_some hfound) hrung hname
  exact ⟨as, hfound.trans (congrArg some hsame)⟩

theorem find?_ladder_eq_none
    (hname : name ∉ o.cls.layers.map (·.name)) :
    o.ladder.find? (·.1.name == name) = none := by
  refine List.find?_eq_none.mpr fun rung hrung heq => hname ?_
  have hlayer : rung.1 ∈ o.cls.layers := by
    rw [← ClassLayer.map_fst_ladder o.typeArgs o.cls.layers]
    exact List.mem_map_of_mem hrung
  exact List.mem_map.mpr ⟨rung.1, hlayer, beq_iff_eq.mp heq⟩

end Instance

/-! ### Spellings of the type of all values -/

theorem TypeExpr.canonical_of_isAny
    {t : TypeExpr} (ht : t.isAny = true) :
    t.canonical = .any := by
  unfold isAny at ht
  split at ht
  · next n =>
      rw [canonical, beq_iff_eq.mp ht]
      rfl
  · cases ht

/-- Every value fits the type of all values, however that is spelled. -/
theorem Heap.fits_of_isAny
    {h : Heap} {v : Value} {t : TypeExpr} (ht : t.isAny = true) :
    h.fits v t = true := by
  unfold TypeExpr.isAny at ht
  split at ht
  · next n =>
      have hname : canonicalName n = "Any" := beq_iff_eq.mp ht
      simp [fits, plainConforms, isKnownType, builtinTypes, hname]
  · cases ht

/-! ### Agreement -/

namespace Instance

variable {o : Instance} {d : ClassLayer}

/-- On a rung whose arguments say nothing every parameter stands for the type of all values. -/
theorem isAny_getD
    {as : List TypeExpr} (hany : areAllAny as = true) (i : Nat) :
    (as[i]?.getD .any).isAny = true := by
  cases hi : as[i]? with
  | none =>
      rw [Option.getD_none]
      decide +kernel
  | some t =>
      exact List.all_eq_true.mp hany t (List.mem_of_getElem? hi)

/-- Where the classes of a lineage have different names, a type parameter stands for what the test of
the language takes it for: in the same spelling if the test is given a list at all, and otherwise for
the type of all values in one of its spellings.  So the values that may be stored under the parameter
are the same.  At a name outside the lineage there is nothing. -/
theorem bindingsAt_agrees
    (hnames : (o.cls.layers.map (·.name)).Nodup) :
    (∀ d ∈ o.cls.layers, (d.typeParams.map (·.name)).Nodup →
        ∀ (i : Nat) (p : TypeParam), d.typeParams[i]? = some p →
      ∃ t, (o.bindingsAt d.name).get? p.name = some t ∧
        ((Heap.argsSeenAs (.object o) d.name).isSome = true → t = o.seenArg d.name i) ∧
        t.canonical = (o.seenArg d.name i).canonical ∧
        ∀ (h : Heap) (v : Value), h.conforms v (.simple p.name) (o.bindingsAt d.name) =
          (v.isNil || h.fits v (o.seenArg d.name i))) ∧
      ∀ name, name ∉ o.cls.layers.map (·.name) →
        o.bindingsAt name = [] ∧ Heap.argsSeenAs (.object o) name = none := by
  constructor
  · intro d hd hparams i p hp
    obtain ⟨as, hrung⟩ := exists_rung hnames hd
    have hget : (o.bindingsAt d.name).get? p.name = some (as[i]?.getD .any) := by
      rw [bindingsAt_of_rung hrung]
      exact get?_pairParams hparams hp
    have hconforms (h : Heap) (v : Value) : h.conforms v (.simple p.name) (o.bindingsAt d.name) =
        (v.isNil || h.fits v (as[i]?.getD .any)) := by
      rw [Heap.conforms, TypeExpr.simple, TypeExpr.substitute, hget, Option.getD_some]
    rw [argsSeenAs_of_rung hrung, seenArg_of_rung hrung]
    refine ⟨_, hget, ?_⟩
    cases hany : areAllAny as with
    | false =>
        exact ⟨fun _ => rfl, rfl, hconforms⟩
    | true =>
        have ht := isAny_getD hany i
        have hself : TypeExpr.any.isAny = true := by decide +kernel
        refine ⟨Bool.noConfusion, ?_, fun h v => ?_⟩
        · exact (TypeExpr.canonical_of_isAny ht).trans (TypeExpr.canonical_of_isAny hself).symm
        · rw [hconforms, Heap.fits_of_isAny ht]
          exact congrArg (v.isNil || ·) (Heap.fits_of_isAny hself).symm
  · intro name hname
    rw [bindingsAt_eq, argsSeenAs_eq, find?_ladder_eq_none hname]
    exact ⟨rfl, rfl⟩

/-- A type parameter without a bound. -/
def plainParam (name : String) : TypeParam := ⟨name, none, .invariant, false⟩

def box : ClassLayer := { ClassLayer.plain "Box" [] with typeParams := [plainParam "T"] }

/-- A pair is a box of its first part. -/
def pair : ClassLayer :=
  { ClassLayer.plain "Pair" [] with
    typeParams := [plainParam "A", plainParam "B"]
    parentArgs := [.simple "A"] }

/-- A word is a pair of a text and a number. -/
def word : ClassLayer :=
  { ClassLayer.plain "Word" [] with parentArgs := [.simple "String", .simple "Int"] }

/-- Two steps up, a word is a box of texts. -/
theorem bindingsAt_agrees_word :
    let o : Instance := ⟨0, ⟨word, [pair, box]⟩, [], none⟩
    (o.cls.layers.map (·.name)).Nodup ∧ box ∈ o.cls.layers ∧ (box.typeParams.map (·.name)).Nodup ∧
      box.typeParams[0]? = some (plainParam "T") ∧
      (o.bindingsAt "Box").get? "T" = some (.simple "String") ∧
      o.seenArg "Box" 0 = .simple "String" ∧
      "Crate" ∉ o.cls.layers.map (·.name) ∧ o.bindingsAt "Crate" = [] := by
  intro o
  have hnames : (o.cls.layers.map (·.name)).Nodup := by decide
  have hbox : box ∈ o.cls.layers := by simp [o, ClassDef.layers]
  have hparams : (box.typeParams.map (·.name)).Nodup := by decide
  have hcrate : "Crate" ∉ o.cls.layers.map (·.name) := by decide
  obtain ⟨hlineage, houtside⟩ := bindingsAt_agrees hnames
  obtain ⟨t, ht, hsame, -⟩ := hlineage box hbox hparams 0 (plainParam "T") rfl
  have hget : (o.bindingsAt "Box").get? "T" = some (.simple "String") := rfl
  have hsome : (Heap.argsSeenAs (.object o) "Box").isSome = true := by decide +kernel
  have hseen : t = o.seenArg "Box" 0 := hsame hsome
  refine ⟨hnames, hbox, hparams, rfl, hget, ?_, hcrate, (houtside "Crate" hcrate).1⟩
  rw [← hseen]
  exact Option.some.inj (ht.symm.trans hget)

/-- An object of a class named `any` is bound as it is, where the test sees the type of all values. -/
theorem bindingsAt_ne_seenArg_anyPair :
    let o : Instance := ⟨0, ⟨pair, [box]⟩, [.simple "any", .simple "Int"], none⟩
    (o.cls.layers.map (·.name)).Nodup ∧ box ∈ o.cls.layers ∧ (box.typeParams.map (·.name)).Nodup ∧
      box.typeParams[0]? = some (plainParam "T") ∧
      Heap.argsSeenAs (.object o) box.name = none ∧ o.seenArg box.name 0 = .any ∧
      (o.bindingsAt box.name).get? "T" = some (.simple "any") ∧
      (o.bindingsAt box.name).get? "T" ≠ some (o.seenArg box.name 0) := by
  intro o
  have hbound : (o.bindingsAt box.name).get? "T" = some (.simple "any") := rfl
  have hnone : Heap.argsSeenAs (.object o) box.name = none := by
    have hany : areAllAny [.simple "any"] = true := by decide +kernel
    exact (argsSeenAs_of_rung rfl).trans (if_pos hany)
  have hseen : o.seenArg box.name 0 = .any := by
    rw [seenArg, hnone]
    rfl
  refine ⟨by decide, by simp [o, ClassDef.layers], by decide, rfl, hnone, hseen, hbound, ?_⟩
  rw [hbound, hseen]
  simp [TypeExpr.simple, TypeExpr.any]

end Instance
end ScriptEngine
