import ScriptEngine.Proofs.Typing.Runtime

/-!
# Recorded type arguments

A collection that was given no type arguments is asked element by element whether it is of a type;
one that was given some is asked by comparing these.  If it is given those that its elements share,
the two answers can differ.

**Discord.**  An element and its type can be judged differently: an object is of the classes that it
inherits from, while a type argument meets only its own name; and what the elements share need not
stand where their types do.  `Discord` lists these causes.

**Results.**  Without discord a value is of a type just if its runtime type fits
(`instanceOf_eq_holds`), and recording what the elements share changes no answer
(`instanceOf_recorded`).  A list of objects of subclasses is of the type of lists of the class until
their type is recorded.
-/

namespace ScriptEngine

namespace Typing

variable {reg : Registry} {a b e r t u : TypeExpr} {as es ms ts : List TypeExpr} {n p : String}

/-! ### Two comparisons -/

/-- How types are compared: what can stand for another, or what meets a type argument. -/
inductive Comparison
  | subtype
  | argument

namespace Comparison

variable {k : Comparison}

def holds (reg : Registry) : Comparison → TypeExpr → TypeExpr → Bool
  | subtype => isSubtype reg
  | argument => argFits reg

/-- Whether names are compared as equal. -/
def relates (reg : Registry) (k : Comparison) (a n : String) : Prop :=
  sameHead a n = true ∨ k = subtype ∧ reg.isSubtype a n = true

theorem holds_of_isAny_right
    (hr : r.isAny = true) :
    k.holds reg a r = true := by
  cases k with
  | subtype => exact isSubtype_of_isAny_right hr
  | argument => exact argFits_of_isAny_right hr

theorem holds_wildcard :
    k.holds reg a .wildcard = true := by
  cases k with
  | subtype => exact isSubtype_wildcard a
  | argument => exact argFits_wildcard

theorem holds_boundedAbove :
    k.holds reg a (.boundedAbove b) = isSubtype reg a b := by
  cases k with
  | subtype => exact Bool.eq_iff_iff.mpr (isSubtype_boundedAbove_iff b a)
  | argument => exact argFits_boundedAbove

theorem holds_boundedBelow
    (ha : a.isUnion = false) :
    k.holds reg a (.boundedBelow b) = isSubtype reg b a := by
  cases k with
  | subtype => exact Bool.eq_iff_iff.mpr (isSubtype_boundedBelow_iff ha)
  | argument => exact argFits_boundedBelow

theorem holds_union_iff
    (ha : a.isUnion = false) (hany : a.isAny = false) :
    k.holds reg a (.union ms) = true ↔ ∃ m ∈ ms, k.holds reg a m = true := by
  cases k with
  | subtype => exact isSubtype_union_right_iff ha hany
  | argument => exact argFits_union_right_iff ha hany

theorem holds_named_iff
    (ha : (TypeExpr.named n as).isAny = false) (hr : (TypeExpr.named p es).isAny = false) :
    k.holds reg (.named n as) (.named p es) = true ↔
      k.relates reg (canonicalName n) (canonicalName p) ∧ Meets reg as es := by
  cases k with
  | subtype =>
      rw [holds, isSubtype_named_iff ha hr, relates, Meets, eq_self, true_and]
  | argument =>
      simp only [holds, argFits_named_iff ha hr, relates, Meets, reduceCtorEq, false_and, or_false]

end Comparison

/-! ### Shared types -/

/-- What the types of several values share fits where all of the types do; but the type of numbers
need not, and what is asked to stand above a type need not stand above all of them. -/
theorem argFits_commonType_iff
    (ht : Heap.commonType ts = some t) (hnumber : t ≠ .simple "Number")
    (hr : ∀ b, r ≠ .boundedBelow b) :
    argFits reg t r = true ↔ ∀ u ∈ ts, argFits reg u r = true := by
  obtain ⟨us, hmem, hshares⟩ := Heap.shares_of_commonType ht
  simp only [← hmem]
  cases hshares with
  | one => simp
  | numbers _ => exact absurd rfl hnumber
  | union us => exact argFits_union_left_iff hr

/-- The type of numbers is shared by types of numbers alone. -/
theorem exists_number_of_commonType
    (ht : Heap.commonType ts = some (.simple "Number")) :
    ∃ n, .named n [] ∈ ts ∧
      (canonicalName n = "Int" ∨ canonicalName n = "Float" ∨ canonicalName n = "Number") := by
  obtain ⟨us, hmem, hshares⟩ := Heap.shares_of_commonType ht
  simp only [← hmem]
  cases hshares with
  | one => exact ⟨"Number", List.mem_singleton_self _, by decide +kernel⟩
  | numbers hnumbers =>
      obtain ⟨t, ht⟩ : ∃ t, t ∈ us := by
        refine List.exists_mem_of_ne_nil us ?_
        rintro rfl
        cases hnumbers
      obtain ⟨n, rfl, hn⟩ := Heap.exists_of_isIntOrFloat hnumbers ht
      exact ⟨n, ht, hn.imp_right .inl⟩

end Typing

/-! ### Values and their types -/

/-- Whether the name of a value is that of its kind alone: a definition goes by what it defines, and
a class can have the name of a builtin type. -/
def Value.HasOwnName : Value → Prop
  | object o => typeAliases.lookup o.cls.name.toLower = none
  | classDef _ | interfaceDef _ => False
  | _ => True

namespace Heap

open Typing

variable {h : Heap} {k : Comparison} {v w : Value} {c c' : Collection} {o : Instance} {p : String}
variable {a b t u : TypeExpr} {as args ms ts : List TypeExpr} {s : List Value}
variable {slots : List (List Value)}

/-- Whether the program has declared under the name of a value what the value is. -/
def Registered (h : Heap) : Value → Prop
  | .object o => Registry.cls? h.registry o.cls.name = some o.cls
  | v => h.registry.find? v.kindName = none

/-- The type arguments in the runtime type of a value. -/
def shown (h : Heap) (v : Value) : List TypeExpr :=
  match h.runtimeType v with
  | .named _ as => as
  | _ => []

theorem runtimeType_eq
    (h : Heap) (v : Value) :
    h.runtimeType v = .named v.kindName (h.shown v) := by
  obtain ⟨n, hn⟩ : ∃ n, h.depthLimit = n + 1 := ⟨_, rfl⟩
  have hnamed : ∃ as, h.runtimeType v = .named v.kindName as := by
    rw [runtimeType, hn]
    cases v with
    | object o =>
        exact ⟨_, runtimeTypeWithin_object h n o⟩
    | collection c =>
        cases hany : areAllAny c.typeArgs with
        | false =>
            exact ⟨_, runtimeTypeWithin_given hany⟩
        | true =>
            obtain ⟨slots, hslots⟩ := h.exists_elementsByArg c
            exact ⟨_, runtimeTypeWithin_shared hany hslots⟩
    | channel id element =>
        cases element with
        | none | some => exact ⟨_, rfl⟩
    | _ =>
        exact ⟨_, rfl⟩
  obtain ⟨as, has⟩ := hnamed
  rw [shown, has]

/-- A type argument is asked of elements of a collection that was given none. -/
inductive Asks (h : Heap) : Value → TypeExpr → List Value → TypeExpr → Prop
  | mk {c : Collection} {p : String} {as : List TypeExpr} {slots : List (List Value)}
      {s : List Value} {a : TypeExpr} (hbare : areAllAny c.typeArgs = true)
      (hname : canonicalName p = c.kind.name)
      (hslots : h.elementsByArg (.collection c) = some slots) (hmem : (s, a) ∈ slots.zip as) :
      Asks h (.collection c) (.named p as) s a

/-- What can make a value and its runtime type be judged differently. -/
inductive Discord (h : Heap) : Comparison → Value → TypeExpr → Prop
  | member {k : Comparison} {v : Value} {m : TypeExpr} {ms : List TypeExpr} (hm : m ∈ ms)
      (hd : Discord h k v m) :
      Discord h k v (.union ms)
  | bound {k : Comparison} {v : Value} {b : TypeExpr} (hd : Discord h .subtype v b) :
      Discord h k v (.boundedAbove b)
  -- Names: that of a builtin type, one declared anew, that of an ancestor.
  | misnamed {k : Comparison} {v : Value} {t : TypeExpr} (hname : ¬ v.HasOwnName) :
      Discord h k v t
  | unregistered {v : Value} {p : String} {as : List TypeExpr} (hreg : ¬ h.Registered v) :
      Discord h .subtype v (.named p as)
  | inherited {o : Instance} {p : String} {as : List TypeExpr}
      (hisA : o.cls.isA (canonicalName p) = true) (hne : o.cls.name ≠ canonicalName p) :
      Discord h .argument (.object o) (.named p as)
  -- Type arguments: of everything, of an ancestor, of what shows none.
  | everything {k : Comparison} {v : Value} {p : String} {as : List TypeExpr}
      (hany : canonicalName p = "Any") (has : as ≠ []) :
      Discord h k v (.named p as)
  | passed {k : Comparison} {o : Instance} {p : String} {as : List TypeExpr}
      (hisA : o.cls.isA (canonicalName p) = true)
      (hargs : ¬ (Meets h.registry (o.passedArgs (canonicalName p)) as ↔
        Meets h.registry o.shownArgs as)) :
      Discord h k (.object o) (.named p as)
  | silent {k : Comparison} {v : Value} {p : String} {as : List TypeExpr}
      {slots : List (List Value)} (hhead : headFits v (canonicalName p) = true) (has : as ≠ [])
      (hshown : h.shown v = []) (hslots : h.elementsByArg v = some slots)
      (hfail : h.slotsMatch slots as = false) :
      Discord h k v (.named p as)
  -- Elements: each by itself, and what they share.
  | element {k : Comparison} {v w : Value} {t a : TypeExpr} {s : List Value}
      (hasks : h.Asks v t s a) (hw : w ∈ s) (hd : Discord h .argument w a) :
      Discord h k v t
  | lower {k : Comparison} {v : Value} {t u b : TypeExpr} {s : List Value}
      (hasks : h.Asks v t s (.boundedBelow b)) (hshared : h.elementType? s = some u)
      (hd : ¬ (isSubtype h.registry b u = true ↔
        ∀ w ∈ s, isSubtype h.registry b (h.runtimeType w) = true)) :
      Discord h k v t
  | numbers {k : Comparison} {v : Value} {t a : TypeExpr} {s : List Value}
      (hasks : h.Asks v t s a) (hshared : h.elementType? s = some (.simple "Number"))
      (hd : ¬ (argFits h.registry (.simple "Number") a = true ↔
        ∀ w ∈ s, argFits h.registry (h.runtimeType w) a = true)) :
      Discord h k v t

/-! ### Names -/

/-- Every value but an object goes by a name just if its kind does. -/
theorem headFits_iff_sameHead
    (hname : v.HasOwnName) (hobject : ∀ o, v ≠ .object o) (hany : p ≠ "Any") :
    headFits v p = true ↔ sameHead v.kindName p = true := by
  cases v with
  | object o =>
      exact absurd rfl (hobject o)
  | classDef | interfaceDef =>
      cases hname
  | collection c =>
      cases hkind : c.kind <;>
        simp [headFits, sameHead, Value.kindName, hkind, CollectionKind.name, hany]
  | future id kind =>
      cases kind <;> simp [headFits, sameHead, Value.kindName, FutureKind.name, hany]
  | module m =>
      cases m <;> simp [headFits, sameHead, Value.kindName, Module.name, hany]
  | _ =>
      simp [headFits, sameHead, Value.kindName, hany, eq_comm (b := p)]

theorem canonicalName_kindName
    (hname : v.HasOwnName) :
    canonicalName v.kindName = v.kindName := by
  cases v with
  | object o =>
      rw [Value.kindName, canonicalName, hname, Option.getD_none]
  | classDef | interfaceDef =>
      cases hname
  | collection c =>
      exact canonicalName_kind c.kind
  | future id kind =>
      cases kind <;> exact canonicalName_kinds _ (by simp [Value.kindName, FutureKind.name])
  | module m =>
      cases m <;> exact canonicalName_kinds _ (by simp [Value.kindName, Module.name])
  | _ =>
      exact canonicalName_kinds _ (by simp [Value.kindName])

theorem name_ne_of_hasOwnName
    {n : String} (hname : (Value.object o).HasOwnName)
    (hn : (typeAliases.lookup n.toLower).isSome = true) :
    o.cls.name ≠ n := by
  rintro rfl
  rw [show typeAliases.lookup _ = none from hname] at hn
  cases hn

/-- A class without the name of a builtin type is called like itself alone. -/
theorem sameHead_object_iff
    (hname : (Value.object o).HasOwnName) :
    sameHead o.cls.name p = true ↔ o.cls.name = p := by
  have hint : o.cls.name ≠ "Int" := name_ne_of_hasOwnName hname (by decide +kernel)
  have hfloat : o.cls.name ≠ "Float" := name_ne_of_hasOwnName hname (by decide +kernel)
  simp [sameHead, hint, hfloat]

theorem isA_self
    (cls : ClassDef) :
    cls.isA cls.name = true := by
  simp [ClassDef.isA, ClassDef.layers, ClassDef.layerIs, ClassDef.name]

/-- A kind that the program has not declared anew is no other. -/
theorem kindName_eq_of_isSubtype
    (hreg : h.Registered v) (hobject : ∀ o, v ≠ .object o)
    (hsub : Registry.isSubtype h.registry v.kindName p = true) :
    v.kindName = p := by
  have hfind : h.registry.find? v.kindName = none := by
    cases v with
    | object o =>
        exact absurd rfl (hobject o)
    | _ =>
        exact hreg
  simpa [Registry.isSubtype, hfind] using hsub

/-- Without discord a value goes by a name just if its type does. -/
theorem headFits_iff_relates
    {as : List TypeExpr} (hclear : ¬ h.Discord k v (.named p as)) (hany : canonicalName p ≠ "Any") :
    headFits v (canonicalName p) = true ↔
      k.relates h.registry (canonicalName v.kindName) (canonicalName p) := by
  have hname : v.HasOwnName := by_contra fun hname => hclear (.misnamed hname)
  rw [canonicalName_kindName hname, Comparison.relates]
  by_cases hobject : ∃ o, v = .object o
  · obtain ⟨o, rfl⟩ := hobject
    have hhead : headFits (.object o) (canonicalName p) = o.cls.isA (canonicalName p) := by
      simp [headFits, hany]
    rw [hhead, Value.kindName, sameHead_object_iff hname]
    cases k with
    | argument =>
        have hexact : o.cls.isA (canonicalName p) = true → o.cls.name = canonicalName p :=
          fun hisA => by_contra fun hne => hclear (.inherited hisA hne)
        simp only [reduceCtorEq, false_and, or_false]
        exact ⟨hexact, fun heq => heq ▸ isA_self o.cls⟩
    | subtype =>
        have hreg : h.Registered (.object o) := by_contra fun hreg => hclear (.unregistered hreg)
        have hdeclared : o.IsDeclared h := ⟨hreg, hname⟩
        rw [hdeclared.isSubtype_iff, eq_self, true_and]
        exact (or_iff_right_of_imp fun heq => heq ▸ isA_self o.cls).symm
  · have hobject := not_exists.mp hobject
    rw [headFits_iff_sameHead hname hobject hany]
    refine (or_iff_left_of_imp ?_).symm
    rintro ⟨rfl, hsub⟩
    have hreg : h.Registered v := by_contra fun hreg => hclear (.unregistered hreg)
    simp [sameHead, kindName_eq_of_isSubtype hreg hobject hsub]

/-! ### Type arguments -/

/-- What a value is asked of its type arguments, once its name agrees. -/
def argsAgree (h : Heap) (v : Value) (p : String) (as : List TypeExpr) : Prop :=
  as = [] ∨
    match argsSeenAs v (canonicalName p) with
    | some actual => argsMatch h.registry actual as = true
    | none => ∀ slots, h.elementsByArg v = some slots → h.slotsMatch slots as = true

theorem instanceOf_named_iff
    {as : List TypeExpr} :
    h.instanceOf v (.named p as) = true ↔
      headFits v (canonicalName p) = true ∧ h.argsAgree v p as := by
  rw [instanceOf, namedInstance, Bool.and_eq_true, Bool.or_eq_true, List.isEmpty_iff, argsAgree]
  cases argsSeenAs v (canonicalName p) with
  | some actual =>
      rfl
  | none =>
      cases h.elementsByArg v <;> simp

/-- A collection that was given no type arguments has those that its elements share. -/
theorem shown_bare
    (hc : h.Acyclic (.collection c)) (hbare : areAllAny c.typeArgs = true)
    (hslots : h.elementsByArg (.collection c) = some slots) :
    h.shown (.collection c) = (slots.mapM h.elementType?).getD [] := by
  rw [shown, runtimeType_collection hc hslots, if_pos hbare]

theorem shown_given
    (hc : h.Acyclic (.collection c)) (hgiven : areAllAny c.typeArgs = false) :
    h.shown (.collection c) = c.typeArgs := by
  obtain ⟨slots, hslots⟩ := h.exists_elementsByArg c
  rw [shown, runtimeType_collection hc hslots, hgiven]
  rfl

theorem shown_object :
    h.shown (.object o) = o.shownArgs := by
  rw [shown, runtimeType_object]

/-- Of the elements of a slot, where each is judged as its type. -/
theorem all_instanceOf_iff
    (hs : h.elementType? s = some t)
    (hclear : ¬ h.Discord k v u) (hasks : h.Asks v u s a)
    (heach : ∀ w ∈ s, h.instanceOf w a = argFits h.registry (h.runtimeType w) a) :
    (s.all fun w => h.instanceOf w a) = argFits h.registry t a := by
  have hall : (s.all fun w => h.instanceOf w a) = true ↔
      ∀ w ∈ s, argFits h.registry (h.runtimeType w) a = true := by
    rw [List.all_eq_true]
    exact forall₂_congr fun w hw => by rw [heach w hw]
  rw [Bool.eq_iff_iff, hall]
  by_cases hlower : ∃ b, a = .boundedBelow b
  · obtain ⟨b, rfl⟩ := hlower
    simp only [argFits_boundedBelow]
    exact (by_contra fun hd => hclear (.lower hasks hs hd)).symm
  · by_cases hnumber : t = .simple "Number"
    · subst hnumber
      exact (by_contra fun hd => hclear (.numbers hasks hs hd)).symm
    · rw [argFits_commonType_iff hs hnumber (not_exists.mp hlower)]
      simp

/-- Slots are asked as the type arguments that they share are compared, if each slot is. -/
theorem slotsMatch_eq_argsMatch
    (hargs : slots.mapM h.elementType? = some args)
    (heach : ∀ s a t, (s, a) ∈ slots.zip as → h.elementType? s = some t →
      (s.all fun w => h.instanceOf w a) = argFits h.registry t a) :
    h.slotsMatch slots as = argsMatch h.registry args as := by
  induction slots generalizing args as with
  | nil =>
      cases hargs
      cases as <;> simp [slotsMatch, argsMatch]
  | cons s slots ih =>
      obtain ⟨t, ts, ht, hts, rfl⟩ := exists_of_mapM_cons hargs
      cases as with
      | nil =>
          simp [slotsMatch, argsMatch]
      | cons a as =>
          rw [slotsMatch, argsMatch, heach s a t (by simp) ht,
            ih hts fun s' a' t' hmem => heach s' a' t' (by simp [hmem])]

/-- Every collection has a slot of elements. -/
theorem shared_ne_nil
    (hslots : h.elementsByArg (.collection c) = some slots)
    (hargs : slots.mapM h.elementType? = some args) :
    args ≠ [] := by
  obtain ⟨s, rest, rfl⟩ : ∃ s rest, slots = s :: rest := by
    rw [elementsByArg] at hslots
    cases hcontents : h.collection c.id with
    | items | entries =>
        rw [hcontents] at hslots
        cases hslots
        exact ⟨_, _, rfl⟩
  obtain ⟨t, ts, -, -, rfl⟩ := exists_of_mapM_cons hargs
  exact List.cons_ne_nil t ts

/-- What shows no type arguments is asked for none, or its elements are of those. -/
theorem argsAgree_silent
    (hclear : ¬ h.Discord k v (.named p as)) (hhead : headFits v (canonicalName p) = true)
    (hseen : argsSeenAs v (canonicalName p) = none) (hshown : h.shown v = []) :
    h.argsAgree v p as := by
  by_cases has : as = []
  · exact .inl has
  · rw [argsAgree, hseen]
    refine .inr fun slots hslots => ?_
    rw [← Bool.not_eq_false]
    exact fun hfail => hclear (.silent hhead has hshown hslots hfail)

/-- A collection that was given no type arguments is asked for what its elements share. -/
theorem argsAgree_bare
    (hc : h.Acyclic (.collection c)) (hbare : areAllAny c.typeArgs = true)
    (hclear : ¬ h.Discord k (.collection c) (.named p as))
    (hhead : headFits (.collection c) (canonicalName p) = true) (hany : canonicalName p ≠ "Any")
    (heach : ∀ s a, h.Asks (.collection c) (.named p as) s a → ∀ w ∈ s,
      h.instanceOf w a = argFits h.registry (h.runtimeType w) a) :
    h.argsAgree (.collection c) p as ↔ Meets h.registry (h.shown (.collection c)) as := by
  have hseen : argsSeenAs (.collection c) (canonicalName p) = none := by simp [argsSeenAs, hbare]
  obtain ⟨slots, hslots⟩ := h.exists_elementsByArg c
  cases hargs : slots.mapM h.elementType? with
  | none =>
      have hshown : h.shown (.collection c) = [] := by rw [shown_bare hc hbare hslots, hargs]; rfl
      exact iff_of_true (argsAgree_silent hclear hhead hseen hshown) (.inl hshown)
  | some args =>
      have hname : c.kind.name = canonicalName p := by simpa [headFits, hany] using hhead
      have hmatch : h.slotsMatch slots as = argsMatch h.registry args as := by
        refine slotsMatch_eq_argsMatch hargs fun s a t hmem ht => ?_
        have hasks : h.Asks (.collection c) (.named p as) s a :=
          .mk hbare hname.symm hslots hmem
        exact all_instanceOf_iff ht hclear hasks (heach s a hasks)
      have hne : args ≠ [] := shared_ne_nil hslots hargs
      rw [argsAgree, hseen, shown_bare hc hbare hslots, hargs, Option.getD_some, Meets]
      simp [hslots, hmatch, hne]

theorem argsAgree_object
    (hany : canonicalName p ≠ "Any") (hhead : headFits (.object o) (canonicalName p) = true) :
    h.argsAgree (.object o) p as ↔ Meets h.registry (o.passedArgs (canonicalName p)) as := by
  have hisA : o.cls.isA (canonicalName p) = true := by simpa [headFits, hany] using hhead
  have hiff : h.instanceOf (.object o) (.named p as) = true ↔ _ := instanceOf_object_iff hany
  rw [instanceOf_named_iff, hhead, hisA] at hiff
  simpa using hiff

/-- Without discord a value is asked of its type arguments as its type is. -/
theorem argsAgree_iff_meets
    (hv : h.Acyclic v) (hclear : ¬ h.Discord k v (.named p as))
    (hhead : headFits v (canonicalName p) = true) (hany : canonicalName p ≠ "Any")
    (heach : ∀ s a, h.Asks v (.named p as) s a → ∀ w ∈ s,
      h.instanceOf w a = argFits h.registry (h.runtimeType w) a) :
    h.argsAgree v p as ↔ Meets h.registry (h.shown v) as := by
  cases v with
  | object o =>
      have hisA : o.cls.isA (canonicalName p) = true := by simpa [headFits, hany] using hhead
      rw [argsAgree_object hany hhead, shown_object]
      exact by_contra fun hargs => hclear (.passed hisA hargs)
  | collection c =>
      cases hgiven : areAllAny c.typeArgs with
      | true =>
          exact argsAgree_bare hv hgiven hclear hhead hany heach
      | false =>
          rw [shown_given hv hgiven, argsAgree, argsSeenAs, hgiven, Meets]
          have hne : c.typeArgs ≠ [] := by
            intro hnil
            rw [hnil] at hgiven
            cases hgiven
          simp [hne]
  | channel id element =>
      cases element with
      | none => exact iff_of_true (argsAgree_silent hclear hhead rfl rfl) (.inl rfl)
      | some t =>
          rw [show h.shown (.channel id (some t)) = [t] from rfl, argsAgree, argsSeenAs, Meets]
          simp
  | _ =>
      exact iff_of_true (argsAgree_silent hclear hhead rfl rfl) (.inl rfl)

/-! ### Tests and comparisons -/

theorem isAny_runtimeType
    (hname : v.HasOwnName) :
    (h.runtimeType v).isAny = false := by
  have hne : v.kindName ≠ "Any" := by
    cases v with
    | object o =>
        exact name_ne_of_hasOwnName hname (by decide +kernel)
    | classDef | interfaceDef =>
        cases hname
    | collection c =>
        cases hkind : c.kind <;> simp [Value.kindName, hkind, CollectionKind.name]
    | future id kind =>
        cases kind <;> simp [Value.kindName, FutureKind.name]
    | module m =>
        cases m <;> simp [Value.kindName, Module.name]
    | _ =>
        simp [Value.kindName]
  rw [runtimeType_eq]
  exact TypeExpr.isAny_named_of_ne (by rwa [canonicalName_kindName hname]) _

theorem Asks.mem
    (hasks : h.Asks v (.named p as) s a) :
    a ∈ as ∧ ∀ w ∈ s, w ∈ h.parts v := by
  cases hasks with
  | mk hbare _ hslots hmem =>
      obtain ⟨hs, ha⟩ := List.of_mem_zip hmem
      exact ⟨ha, fun w hw => elements_mem_parts hbare hslots hs hw⟩

/-- Without discord a value is of a named type just if its runtime type fits, if its elements are. -/
theorem instanceOf_named_eq_holds
    (hv : h.Acyclic v) (hclear : ¬ h.Discord k v (.named p as))
    (heach : ∀ s a, h.Asks v (.named p as) s a → ∀ w ∈ s,
      h.instanceOf w a = argFits h.registry (h.runtimeType w) a) :
    h.instanceOf v (.named p as) = k.holds h.registry (h.runtimeType v) (.named p as) := by
  by_cases hany : canonicalName p = "Any"
  · have has : as = [] := by_contra fun has => hclear (.everything hany has)
    subst has
    rw [Comparison.holds_of_isAny_right (by simp [TypeExpr.isAny, hany]), instanceOf_named_iff, hany]
    exact ⟨headFits_any v, .inl rfl⟩
  · have hname : v.HasOwnName := by_contra fun hname => hclear (.misnamed hname)
    have hactual := isAny_runtimeType (h := h) hname
    rw [runtimeType_eq] at hactual ⊢
    rw [Bool.eq_iff_iff, instanceOf_named_iff,
      Comparison.holds_named_iff hactual (TypeExpr.isAny_named_of_ne hany as),
      headFits_iff_relates hclear hany]
    refine and_congr_right fun hrelates => ?_
    have hhead := (headFits_iff_relates hclear hany).mpr hrelates
    exact argsAgree_iff_meets hv hclear hhead hany heach

/-- Without discord a value is of a type just if its runtime type fits. -/
theorem instanceOf_eq_holds :
    (t : TypeExpr) → ∀ {v : Value} {k : Comparison}, h.Acyclic v → ¬ h.Discord k v t →
      h.instanceOf v t = k.holds h.registry (h.runtimeType v) t
  | .wildcard, v, k, _, _ => by
      rw [instanceOf, Comparison.holds_wildcard]
  | .boundedAbove b, v, k, hv, hclear => by
      rw [instanceOf, Comparison.holds_boundedAbove]
      exact instanceOf_eq_holds b (k := .subtype) hv fun hd => hclear (.bound hd)
  | .boundedBelow b, v, k, _, _ => by
      rw [instanceOf, Comparison.holds_boundedBelow (by rw [runtimeType_eq]; rfl)]
  | .union ms, v, k, hv, hclear => by
      have hname : v.HasOwnName := by_contra fun hname => hclear (.misnamed hname)
      have hunion : (h.runtimeType v).isUnion = false := by rw [runtimeType_eq]; rfl
      rw [instanceOf, Bool.eq_iff_iff, instanceOfAny_iff,
        Comparison.holds_union_iff hunion (isAny_runtimeType hname)]
      refine exists_congr fun m => and_congr_right fun hm => ?_
      rw [instanceOf_eq_holds m hv fun hd => hclear (.member hm hd)]
  | .named p as, v, k, hv, hclear => by
      refine instanceOf_named_eq_holds hv hclear fun s a hasks w hw => ?_
      obtain ⟨ha, hparts⟩ := hasks.mem
      exact instanceOf_eq_holds a (k := .argument) (hv.part (hparts w hw))
        fun hd => hclear (.element hasks hw hd)

/-! ### Recording -/

/-- A collection has the kind and the elements of one that was given no type arguments and is not part
of itself, and it has been given those that the elements share. -/
structure Records (h : Heap) (c' c : Collection) : Prop where
  bare : areAllAny c.typeArgs = true
  acyclic : h.Acyclic (.collection c)
  kind_eq : c'.kind = c.kind
  elements_eq : h.elementsByArg (.collection c') = h.elementsByArg (.collection c)
  shared : ∃ slots, h.elementsByArg (.collection c) = some slots ∧
    slots.mapM h.elementType? = some c'.typeArgs

namespace Records

theorem parts_subset
    (hrec : h.Records c' c) :
    h.parts (.collection c') ⊆ h.parts (.collection c) := by
  rw [parts, parts, if_pos hrec.bare, hrec.elements_eq]
  split
  · exact List.Subset.refl _
  · exact List.nil_subset _

theorem acyclic_recorded
    (hrec : h.Records c' c) :
    h.Acyclic (.collection c') := by
  have htells (w : Value) (hw : h.Tells (.collection c') w) : h.Tells (.collection c) w := by
    obtain ⟨u, hu, hrest⟩ := Relation.TransGen.head'_iff.mp hw
    exact Relation.TransGen.head' (hrec.parts_subset hu) hrest
  exact ⟨fun hself => hrec.acyclic.2 _ (htells _ hself) hself,
    fun w hw => hrec.acyclic.2 w (htells w hw)⟩

theorem shown_eq
    (hrec : h.Records c' c) :
    h.shown (.collection c') = c'.typeArgs ∧ h.shown (.collection c) = c'.typeArgs := by
  obtain ⟨slots, hslots, hargs⟩ := hrec.shared
  have hshown : h.shown (.collection c) = c'.typeArgs := by
    rw [shown_bare hrec.acyclic hrec.bare hslots, hargs, Option.getD_some]
  refine ⟨?_, hshown⟩
  cases hgiven : areAllAny c'.typeArgs with
  | true =>
      rw [shown_bare hrec.acyclic_recorded hgiven (hrec.elements_eq.trans hslots), hargs,
        Option.getD_some]
  | false =>
      exact shown_given hrec.acyclic_recorded hgiven

theorem runtimeType_eq
    (hrec : h.Records c' c) :
    h.runtimeType (.collection c') = h.runtimeType (.collection c) := by
  obtain ⟨hshown', hshown⟩ := hrec.shown_eq
  rw [Heap.runtimeType_eq, Heap.runtimeType_eq, hshown', hshown, Value.kindName, hrec.kind_eq,
    Value.kindName]

theorem asks
    (hrec : h.Records c' c) (hasks : h.Asks (.collection c') t s a) :
    h.Asks (.collection c) t s a := by
  cases hasks with
  | mk _ hname hslots hmem =>
      exact .mk hrec.bare (hname.trans (by rw [hrec.kind_eq])) (hrec.elements_eq ▸ hslots) hmem

/-- What is recorded brings no discord. -/
theorem discord
    (hrec : h.Records c' c) (hd : h.Discord k (.collection c') t) :
    h.Discord k (.collection c) t := by
  generalize hv : Value.collection c' = v at hd
  induction hd with
  | member hm _ ih => exact .member hm (ih hv)
  | bound _ ih => exact .bound (ih hv)
  | misnamed hname =>
      subst hv
      exact absurd trivial hname
  | unregistered hreg =>
      subst hv
      refine .unregistered fun hreg' => hreg ?_
      exact (congrArg _ (congrArg CollectionKind.name hrec.kind_eq)).trans hreg'
  | everything hany has => exact .everything hany has
  | inherited | passed => cases hv
  | silent _ _ hshown _ _ =>
      subst hv
      obtain ⟨slots, hslots, hargs⟩ := hrec.shared
      exact absurd (hrec.shown_eq.1.symm.trans hshown) (shared_ne_nil hslots hargs)
  | element hasks hw hd _ => exact .element (hrec.asks (hv ▸ hasks)) hw hd
  | lower hasks hshared hd => exact .lower (hrec.asks (hv ▸ hasks)) hshared hd
  | numbers hasks hshared hd => exact .numbers (hrec.asks (hv ▸ hasks)) hshared hd

end Records

/-- A value is an object of a class that inherits from one of another name. -/
def IsHeir (p : String) (v : Value) : Prop :=
  ∃ o, v = .object o ∧ v.HasOwnName ∧ o.cls.isA p = true ∧ o.cls.name ≠ p

theorem IsHeir.instanceOf
    (hv : IsHeir (canonicalName p) v) (hany : canonicalName p ≠ "Any") :
    h.instanceOf v (.simple p) = true := by
  obtain ⟨o, rfl, -, hisA, -⟩ := hv
  exact (instanceOf_object_iff hany).mpr ⟨hisA, .inr (.inl rfl)⟩

theorem IsHeir.not_argFits
    (hv : IsHeir (canonicalName p) v) (hany : canonicalName p ≠ "Any") :
    argFits h.registry (h.runtimeType v) (.simple p) = false := by
  obtain ⟨o, rfl, hname, -, hne⟩ := hv
  have hactual := isAny_runtimeType (h := h) hname
  rw [runtimeType_eq] at hactual ⊢
  rw [← Bool.not_eq_true, TypeExpr.simple,
    argFits_named_iff hactual (TypeExpr.isAny_named_of_ne hany []), canonicalName_kindName hname,
    Value.kindName, sameHead_object_iff hname]
  exact fun hfits => hne hfits.1

/-- What heirs share is not the class that they inherit from. -/
theorem not_argFits_heirs
    (hs : ∀ v ∈ s, IsHeir (canonicalName p) v) (hany : canonicalName p ≠ "Any")
    (ht : h.elementType? s = some t) :
    argFits h.registry t (.simple p) = false := by
  have hnumber : t ≠ .simple "Number" := by
    rintro rfl
    obtain ⟨n, hn, hcanonical⟩ := exists_number_of_commonType ht
    obtain ⟨v, hv, htype⟩ := List.mem_map.mp hn
    obtain ⟨o, rfl, hname, -⟩ := hs v hv
    rw [runtimeType_eq, TypeExpr.named.injEq] at htype
    rw [← htype.1, canonicalName_kindName hname, Value.kindName] at hcanonical
    rcases hcanonical with hint | hfloat | hnumber
    · exact name_ne_of_hasOwnName hname (by decide +kernel) hint
    · exact name_ne_of_hasOwnName hname (by decide +kernel) hfloat
    · exact name_ne_of_hasOwnName hname (by decide +kernel) hnumber
  have hne : s ≠ [] := by
    rintro rfl
    simp [elementType?, commonType] at ht
  obtain ⟨v, s, rfl⟩ := List.exists_cons_of_ne_nil hne
  rw [← Bool.not_eq_true, argFits_commonType_iff ht hnumber (by rintro b ⟨⟩), List.forall_mem_map]
  intro hfits
  have hv := hfits v List.mem_cons_self
  rw [(hs v List.mem_cons_self).not_argFits hany] at hv
  cases hv

theorem Records.instanceOf_heirs
    (hrec : h.Records c' c) (hslots : h.elementsByArg (.collection c) = some [s])
    (hs : ∀ v ∈ s, IsHeir (canonicalName p) v) (hany : canonicalName p ≠ "Any") :
    h.instanceOf (.collection c) (.named c.kind.name [.simple p]) = true := by
  have hseen (n : String) : argsSeenAs (.collection c) n = none := by
    simp [argsSeenAs, hrec.bare]
  refine instanceOf_named_iff.mpr ⟨headFits_collection c, .inr ?_⟩
  rw [hseen, hslots]
  rintro slots ⟨⟩
  rw [slotsMatch, Bool.and_eq_true, List.all_eq_true]
  exact ⟨fun v hv => (hs v hv).instanceOf hany, rfl⟩

theorem Records.not_instanceOf_heirs
    (hrec : h.Records c' c) (hslots : h.elementsByArg (.collection c) = some [s])
    (hs : ∀ v ∈ s, IsHeir (canonicalName p) v) (hany : canonicalName p ≠ "Any") :
    h.instanceOf (.collection c') (.named c.kind.name [.simple p]) = false := by
  obtain ⟨slots, hslots', hargs⟩ := hrec.shared
  rw [hslots, Option.some.injEq] at hslots'
  subst hslots'
  obtain ⟨t, ts, ht, hts, hargs⟩ := exists_of_mapM_cons hargs
  cases hts
  have hfits : argFits h.registry t (.simple p) = false := not_argFits_heirs hs hany ht
  have hgiven : areAllAny c'.typeArgs = false := by
    have htany : t.isAny = false := by
      rw [← Bool.not_eq_true]
      intro htany
      rw [argFits_of_isAny_left htany] at hfits
      cases hfits
    rw [hargs, areAllAny, List.all_cons, htany, Bool.false_and]
  have hseen (n : String) : argsSeenAs (.collection c') n = some [t] := by
    rw [argsSeenAs, hgiven, hargs]
    rfl
  rw [← Bool.not_eq_true, instanceOf_named_iff, argsAgree, hseen]
  simp [argsMatch, hfits]

/-- Recording what the elements of a collection share changes no answer, unless there is discord.
Elements that inherit from a class are of it until their types are recorded. -/
theorem instanceOf_recorded
    (h : Heap) (c' c : Collection) (hrec : h.Records c' c) :
    (∀ t, ¬ h.Discord .argument (.collection c) t →
      h.instanceOf (.collection c') t = h.instanceOf (.collection c) t ∧
        h.instanceOf (.collection c) t =
          argFits h.registry (h.runtimeType (.collection c)) t) ∧
    ∀ p s, h.elementsByArg (.collection c) = some [s] → (∀ v ∈ s, IsHeir (canonicalName p) v) →
      canonicalName p ≠ "Any" →
      h.instanceOf (.collection c) (.named c.kind.name [.simple p]) = true ∧
        h.instanceOf (.collection c') (.named c.kind.name [.simple p]) = false := by
  constructor
  · intro t hclear
    have htest := instanceOf_eq_holds t hrec.acyclic hclear
    have htest' := instanceOf_eq_holds t hrec.acyclic_recorded fun hd => hclear (hrec.discord hd)
    exact ⟨by rw [htest, htest', hrec.runtimeType_eq], htest⟩
  · intro p s hslots hs hany
    exact ⟨hrec.instanceOf_heirs hslots hs hany, hrec.not_instanceOf_heirs hslots hs hany⟩

theorem acyclic_of_flat
    (hflat : ∀ w ∈ h.parts v, h.parts w = []) :
    h.Acyclic v := by
  have hend {u w : Value} (hu : h.parts u = []) : ¬ h.Tells u w := by
    intro hw
    obtain ⟨x, hx, -⟩ := Relation.TransGen.head'_iff.mp hw
    rw [hu] at hx
    cases hx
  have hmem {w : Value} (hw : h.Tells v w) : w ∈ h.parts v := by
    obtain ⟨u, hu, hrest⟩ := Relation.TransGen.head'_iff.mp hw
    rcases Relation.reflTransGen_iff_eq_or_transGen.mp hrest with rfl | hrest
    · exact hu
    · exact absurd hrest (hend (hflat u hu))
  exact ⟨fun hself => hend (hflat v (hmem hself)) hself, fun w hw => hend (hflat w (hmem hw))⟩

/-- A class of vehicles, and one of bikes among them. -/
def vehicleLayer : ClassLayer :=
  { (default : ClassLayer) with
    name := "Vehicle"
    owned := nofun }

def bikeClass : ClassDef :=
  let own : ClassLayer :=
    { (default : ClassLayer) with
      name := "Bike"
      owned := nofun }
  ⟨own, [vehicleLayer]⟩

/-- A list of a bike is of the type of lists of vehicles until it is recorded as a list of bikes; it is
always of the type of lists of any kind of vehicle. -/
theorem instanceOf_recorded_bikes :
    let bike : Instance := ⟨0, bikeClass, [], none⟩
    let h : Heap :=
      { Heap.empty with
        registry := (∅ : Registry).put (.cls bikeClass)
        collections := #[.items #[.object bike], .items #[.object bike]] }
    let bare : Collection := ⟨0, .list, []⟩
    let recorded : Collection := ⟨1, .list, [.simple "Bike"]⟩
    let vehicles : TypeExpr := .named "List" [.simple "Vehicle"]
    let anyVehicles : TypeExpr := .named "List" [.boundedAbove (.simple "Vehicle")]
    h.Records recorded bare ∧ ¬ h.Discord .argument (.collection bare) anyVehicles ∧
      h.instanceOf (.collection recorded) anyVehicles = h.instanceOf (.collection bare) anyVehicles ∧
      h.instanceOf (.collection bare) vehicles = true ∧
      h.instanceOf (.collection recorded) vehicles = false := by
  intro bike h bare recorded vehicles anyVehicles
  have hvehicle : canonicalName "Vehicle" = "Vehicle" := by decide +kernel
  have hname : (Value.object bike).HasOwnName := by
    rw [Value.HasOwnName]
    decide +kernel
  have htype : h.runtimeType (.object bike) = .simple "Bike" := runtimeType_object
  have hshared : h.elementType? [.object bike] = some (.simple "Bike") := by
    simp [elementType?, commonType, htype]
  have hrec : h.Records recorded bare := by
    refine ⟨rfl, acyclic_of_flat fun w hw => ?_, rfl, rfl, [[.object bike]], rfl, ?_⟩
    · obtain rfl : w = .object bike := List.mem_singleton.mp hw
      rfl
    · rw [List.mapM_cons, hshared]
      rfl
  have hasked {s : List Value} {a b : TypeExpr}
      (hasks : h.Asks (.collection bare) (.named "List" [b]) s a) :
      s = [.object bike] ∧ a = b := by
    cases hasks with
    | mk _ _ hslots hmem =>
        obtain rfl := Option.some.inj hslots
        simpa using hmem
  have hbike : ¬ h.Discord .subtype (.object bike) (.named "Vehicle" []) := by
    intro hd
    cases hd with
    | misnamed hmisnamed => exact hmisnamed hname
    | unregistered hreg => exact hreg rfl
    | everything _ has => exact has rfl
    | passed _ hargs => exact hargs (iff_of_true (.inr (.inl rfl)) (.inr (.inl rfl)))
    | silent _ has _ _ _ => exact has rfl
    | element hasks _ _ | lower hasks _ _ | numbers hasks _ _ => cases hasks
  have hclear : ¬ h.Discord .argument (.collection bare)
      (.named "List" [.boundedAbove (.simple "Vehicle")]) := by
    intro hd
    cases hd with
    | misnamed hname => exact hname trivial
    | everything hany _ =>
        rw [canonicalName_kinds "List" (by simp)] at hany
        exact absurd hany (by decide)
    | silent _ _ hshown _ _ =>
        rw [hrec.shown_eq.2] at hshown
        cases hshown
    | element hasks hw hd =>
        obtain ⟨rfl, rfl⟩ := hasked hasks
        obtain rfl := List.mem_singleton.mp hw
        cases hd with
        | misnamed hmisnamed => exact hmisnamed hname
        | bound hd => exact hbike hd
        | element hasks _ _ | lower hasks _ _ | numbers hasks _ _ => cases hasks
    | lower hasks _ _ =>
        cases (hasked hasks).2
    | numbers hasks hnumber _ =>
        obtain ⟨rfl, -⟩ := hasked hasks
        rw [hshared] at hnumber
        simp [TypeExpr.simple] at hnumber
  obtain ⟨hsame, hheirs⟩ := instanceOf_recorded h recorded bare hrec
  have hheir : ∀ v ∈ [Value.object bike], IsHeir (canonicalName "Vehicle") v := by
    rw [List.forall_mem_singleton, hvehicle]
    exact ⟨bike, rfl, hname, by decide +kernel, by decide⟩
  obtain ⟨hvehicles, hbikes⟩ := hheirs "Vehicle" [.object bike] rfl hheir (by rw [hvehicle]; decide)
  exact ⟨hrec, hclear, (hsame anyVehicles hclear).1, hvehicles, hbikes⟩

end Heap
end ScriptEngine
