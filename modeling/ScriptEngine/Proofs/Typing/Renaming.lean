import ScriptEngine.Typing.Conform

/-!
# New names for type parameters

A type parameter is known by its name only: where a type is asked for, the names in it are replaced by
what the parameters of the class stand for.  So the names themselves should not matter.

`ClassLayer.renamed` gives the type parameters of a declaration new names, wherever its header and
its members mention them.  With the same type arguments the types of the declaration stand for the
same types as before (`substitute_renamed`), if no name gets two meanings (`Fresh`).
-/

namespace ScriptEngine

/-! ### What names stand for -/

namespace Bindings

/-- What a name stands for: its binding, or itself. -/
def meaning (bs : Bindings) (n : String) : TypeExpr := (bs.get? n).getD (.simple n)

theorem get?_nil
    (n : String) :
    get? [] n = none :=
  rfl

theorem get?_cons
    (k : String) (t : TypeExpr) (bs : Bindings) (n : String) :
    get? ((k, t) :: bs) n = (bs.get? n).or (if n = k then some t else none) := by
  rw [get?, get?, List.reverse_cons, List.lookup_append, List.lookup_cons]
  by_cases hn : n = k
  · simp [hn]
  · simp [hn, beq_false_of_ne hn]

theorem get?_append
    (bs cs : Bindings) (n : String) :
    (bs ++ cs).get? n = (cs.get? n).or (bs.get? n) := by
  rw [get?, get?, get?, List.reverse_append, List.lookup_append]

end Bindings

namespace TypeExpr

mutual

/-- Two substitutions in a row are one, if they agree on each name of the type. -/
theorem substitute_substitute
    {bs bs' bs'' : Bindings} (t : TypeExpr)
    (h : ∀ n, t.mentions n = true → (bs.meaning n).substitute bs' = bs''.meaning n) :
    (t.substitute bs).substitute bs' = t.substitute bs'' :=
  match t with
  | named n [] => h n (by simp [mentions])
  | named n (a :: as) => by
      have hhead := substitute_substitute a fun m hm => h m (by simp [mentions, mentionsAny, hm])
      have hrest := substituteList_substituteList as fun m hm =>
        h m (by simp [mentions, mentionsAny, hm])
      simp only [substitute, hhead, hrest]
  | union ms => congrArg union (substituteList_substituteList ms h)
  | wildcard => rfl
  | boundedAbove b => congrArg boundedAbove (substitute_substitute b h)
  | boundedBelow b => congrArg boundedBelow (substitute_substitute b h)

theorem substituteList_substituteList
    {bs bs' bs'' : Bindings} (ts : List TypeExpr)
    (h : ∀ n, mentionsAny n ts = true → (bs.meaning n).substitute bs' = bs''.meaning n) :
    substituteList bs' (substituteList bs ts) = substituteList bs'' ts :=
  match ts with
  | [] => rfl
  | a :: as => by
      have hhead := substitute_substitute a fun m hm => h m (by simp [mentionsAny, hm])
      have hrest := substituteList_substituteList as fun m hm => h m (by simp [mentionsAny, hm])
      simp only [substituteList, hhead, hrest]

end

mutual

/-- A substitution changes a type only if some name of it stands for another type. -/
theorem substitute_eq_self
    {bs : Bindings} (t : TypeExpr) (h : ∀ n, t.mentions n = true → bs.meaning n = .simple n) :
    t.substitute bs = t :=
  match t with
  | named n [] => h n (by simp [mentions])
  | named n (a :: as) => by
      have hhead := substitute_eq_self a fun m hm => h m (by simp [mentions, mentionsAny, hm])
      have hrest := substituteList_eq_self as fun m hm => h m (by simp [mentions, mentionsAny, hm])
      simp only [substitute, hhead, hrest]
  | union ms => congrArg union (substituteList_eq_self ms h)
  | wildcard => rfl
  | boundedAbove b => congrArg boundedAbove (substitute_eq_self b h)
  | boundedBelow b => congrArg boundedBelow (substitute_eq_self b h)

theorem substituteList_eq_self
    {bs : Bindings} (ts : List TypeExpr)
    (h : ∀ n, mentionsAny n ts = true → bs.meaning n = .simple n) :
    substituteList bs ts = ts :=
  match ts with
  | [] => rfl
  | a :: as => by
      have hhead := substitute_eq_self a fun m hm => h m (by simp [mentionsAny, hm])
      have hrest := substituteList_eq_self as fun m hm => h m (by simp [mentionsAny, hm])
      simp only [substituteList, hhead, hrest]

end

end TypeExpr

/-! ### New names for parameters -/

/-- The types that stand for type parameters when these get new names. -/
def newNames (ρ : String → String) (ps : List TypeParam) : Bindings :=
  ps.map fun p => (p.name, .simple (ρ p.name))

def TypeParam.renamed (ρ : String → String) (f : TypeExpr → TypeExpr) (p : TypeParam) : TypeParam :=
  { p with name := ρ p.name, bound := p.bound.map f }

@[simp]
theorem TypeParam.renamed_name
    (ρ : String → String) (f : TypeExpr → TypeExpr) (p : TypeParam) :
    (p.renamed ρ f).name = ρ p.name :=
  rfl

/-- A name is none of the new names, or it is kept. -/
def Avoids (ρ : String → String) (ps : List TypeParam) (n : String) : Prop :=
  ∀ p ∈ ps, ρ p.name = n → p.name = n

/-- No two parameters get the same new name. -/
def KeepsApart (ρ : String → String) (ps : List TypeParam) : Prop :=
  ∀ p ∈ ps, ∀ q ∈ ps, ρ p.name = ρ q.name → p.name = q.name

/-- Some of the parameters have a name. -/
def Has (ps : List TypeParam) (n : String) : Prop := ∃ p ∈ ps, p.name = n

section Parameters

variable {ρ : String → String} {f : TypeExpr → TypeExpr} {p : TypeParam} {ps qs : List TypeParam}
variable {bs : Bindings} {args : List TypeExpr} {n : String}

theorem has_cons :
    Has (p :: ps) n ↔ p.name = n ∨ Has ps n := by
  simp [Has]

theorem get?_newNames_of_not_has
    (h : ¬ Has ps n) :
    (newNames ρ ps).get? n = none := by
  induction ps with
  | nil =>
      rfl
  | cons q ps ih =>
      rw [has_cons, not_or] at h
      rw [newNames, List.map_cons, Bindings.get?_cons, ← newNames, ih h.2, if_neg (Ne.symm h.1),
        Option.none_or]

theorem get?_newNames_of_has
    (h : Has ps n) :
    (newNames ρ ps).get? n = some (.simple (ρ n)) := by
  induction ps with
  | nil =>
      obtain ⟨p, hp, -⟩ := h
      cases hp
  | cons q ps ih =>
      rw [newNames, List.map_cons, Bindings.get?_cons, ← newNames]
      by_cases hrest : Has ps n
      · rw [ih hrest, Option.some_or]
      · have hq : q.name = n := (has_cons.mp h).resolve_right hrest
        rw [get?_newNames_of_not_has hrest, if_pos hq.symm, hq, Option.none_or]

/-- Parameters stand for arguments, and only they do. -/
theorem get?_pairParams_eq_none_iff :
    (pairParams ps args).get? n = none ↔ ¬ Has ps n := by
  induction ps generalizing args with
  | nil =>
      simp [pairParams, Has, Bindings.get?_nil]
  | cons p ps ih =>
      have hcons (a : TypeExpr) (as : List TypeExpr) :
          Bindings.get? ((p.name, a) :: pairParams ps as) n = none ↔ ¬ Has (p :: ps) n := by
        rw [Bindings.get?_cons, Option.or_eq_none_iff, ih, has_cons, not_or, and_comm]
        refine and_congr_left' ?_
        split
        · next hn =>
            simp [hn]
        · next hn =>
            simp [Ne.symm hn]
      cases args with
      | nil =>
          exact hcons .any []
      | cons a as =>
          exact hcons a as

/-- A parameter with a new name stands for what it stood for. -/
theorem get?_pairParams_renamed
    (h : ∀ p ∈ ps, ρ p.name = ρ n → p.name = n) (args : List TypeExpr) :
    (pairParams (ps.map (·.renamed ρ f)) args).get? (ρ n) = (pairParams ps args).get? n := by
  induction ps generalizing args with
  | nil =>
      rfl
  | cons p ps ih =>
      have hname : (ρ n = ρ p.name) = (n = p.name) :=
        propext ⟨fun heq => (h p List.mem_cons_self heq.symm).symm, fun heq => congrArg ρ heq⟩
      have hrest := ih fun q hq => h q (List.mem_cons_of_mem _ hq)
      cases args with
      | nil =>
          simp only [List.map_cons, pairParams, Bindings.get?_cons, hrest, TypeParam.renamed_name, hname]
      | cons a as =>
          simp only [List.map_cons, pairParams, Bindings.get?_cons, hrest, TypeParam.renamed_name, hname]

theorem has_renamed_iff :
    Has (ps.map (·.renamed ρ f)) n ↔ ∃ p ∈ ps, ρ p.name = n := by
  constructor
  · rintro ⟨q, hq, rfl⟩
    obtain ⟨p, hp, rfl⟩ := List.mem_map.mp hq
    exact ⟨p, hp, rfl⟩
  · rintro ⟨p, hp, rfl⟩
    exact ⟨p.renamed ρ f, List.mem_map_of_mem hp, rfl⟩

/-- With the same arguments a type stands for the same under the new names.  Bindings that come later,
such as those of the type parameters of a method, hide parameters of the same name. -/
theorem substitute_renamed
    {t : TypeExpr} (hseparate : KeepsApart ρ ps) (ht : ∀ n, t.mentions n = true → Avoids ρ ps n)
    (hlater : ∀ n, bs.get? n ≠ none → Avoids ρ ps n)
    (hqs : ∀ n, Has qs n ↔ Has ps n ∧ bs.get? n = none) :
    (t.substitute (newNames ρ qs)).substitute (pairParams (ps.map (·.renamed ρ f)) args ++ bs) =
      t.substitute (pairParams ps args ++ bs) := by
  refine TypeExpr.substitute_substitute t fun n hn => ?_
  by_cases hq : Has qs n
  · obtain ⟨⟨p, hp, rfl⟩, hfree⟩ := (hqs n).mp hq
    -- nothing later can hide the new name, since it would have hidden the old one
    have hfree' : bs.get? (ρ p.name) = none := by
      cases hbound : bs.get? (ρ p.name) with
      | none =>
          rfl
      | some a =>
          have hkept := hlater _ (by simp [hbound]) p hp rfl
          rw [← hkept, hfree] at hbound
          cases hbound
    have hsame := get?_pairParams_renamed (f := f) (fun q hq => hseparate q hq p hp) args
    have hbound : (pairParams ps args).get? p.name ≠ none :=
      fun hnone => get?_pairParams_eq_none_iff.mp hnone ⟨p, hp, rfl⟩
    obtain ⟨a, ha⟩ := Option.ne_none_iff_exists'.mp hbound
    rw [ha] at hsame
    simp [Bindings.meaning, get?_newNames_of_has hq, TypeExpr.simple, TypeExpr.substitute,
      Bindings.get?_append, hfree, hfree', hsame, ha]
  · have hsame : bs.get? n = none →
        (pairParams (ps.map (·.renamed ρ f)) args).get? n = (pairParams ps args).get? n := by
      intro hfree
      have hps : ¬ Has ps n := fun hps => hq ((hqs n).mpr ⟨hps, hfree⟩)
      rw [get?_pairParams_eq_none_iff.mpr hps, get?_pairParams_eq_none_iff, has_renamed_iff]
      rintro ⟨p, hp, hname⟩
      exact hps ⟨p, hp, ht n hn p hp hname⟩
    simp only [Bindings.meaning, get?_newNames_of_not_has hq, Option.getD_none, TypeExpr.simple,
      TypeExpr.substitute, Bindings.get?_append]
    cases hbound : bs.get? n with
    | none =>
        rw [hsame hbound]
    | some t =>
        rfl

end Parameters

/-! ### New names in declarations -/

def Param.mapType (f : TypeExpr → TypeExpr) (p : Param) : Param := { p with type := p.type.map f }

def FieldDef.mapType (f : TypeExpr → TypeExpr) (d : FieldDef) : FieldDef :=
  { d with type := d.type.map f }

section MapType

variable (f : TypeExpr → TypeExpr) (p : Param) (d : FieldDef)

@[simp]
theorem Param.mapType_name :
    (p.mapType f).name = p.name :=
  rfl

@[simp]
theorem Param.mapType_type :
    (p.mapType f).type = p.type.map f :=
  rfl

@[simp]
theorem Param.mapType_variadic :
    (p.mapType f).variadic = p.variadic :=
  rfl

@[simp]
theorem FieldDef.mapType_name :
    (d.mapType f).name = d.name :=
  rfl

@[simp]
theorem FieldDef.mapType_type :
    (d.mapType f).type = d.type.map f :=
  rfl

@[simp]
theorem FieldDef.mapType_visibility :
    (d.mapType f).visibility = d.visibility :=
  rfl

@[simp]
theorem FieldDef.mapType_kind :
    (d.mapType f).kind = d.kind :=
  rfl

@[simp]
theorem FieldDef.mapType_init :
    (d.mapType f).init = d.init :=
  rfl

end MapType

namespace Method

/-- The types that a method is declared with. -/
def types (m : Method) : List TypeExpr :=
  m.typeParams.filterMap (·.bound) ++ m.params.filterMap (·.type) ++ m.returns.toList

/-- The parameters of a class that a method does not hide by its own. -/
def unhidden (m : Method) (ps : List TypeParam) : List TypeParam :=
  ps.filter fun p => m.typeParams.all (·.name != p.name)

/-- A method of a class whose type parameters get new names. -/
def renamed (ρ : String → String) (ps : List TypeParam) (m : Method) : Method :=
  let f := TypeExpr.substitute (newNames ρ (m.unhidden ps))
  { m with
    typeParams := m.typeParams.map fun p => { p with bound := p.bound.map f }
    params := m.params.map (·.mapType f)
    returns := m.returns.map f }

end Method

namespace ClassLayer

def members (l : ClassLayer) : List Method := l.methods ++ l.staticMethods ++ l.constructors

/-- The types that a class is declared with. -/
def types (l : ClassLayer) : List TypeExpr :=
  l.typeParams.filterMap (·.bound) ++ l.parentArgs ++ l.fields.filterMap (·.type) ++
    l.components.filterMap (·.type) ++ l.members.flatMap Method.types

/-- A class whose type parameters get new names, in its header and in all of its members. -/
def renamed (ρ : String → String) (l : ClassLayer) : ClassLayer :=
  let f := TypeExpr.substitute (newNames ρ l.typeParams)
  { l with
    typeParams := l.typeParams.map (·.renamed ρ f)
    parentArgs := l.parentArgs.map f
    fields := l.fields.map (·.mapType f)
    methods := l.methods.map (·.renamed ρ l.typeParams)
    staticMethods := l.staticMethods.map (·.renamed ρ l.typeParams)
    constructors := l.constructors.map (·.renamed ρ l.typeParams)
    components := l.components.map (·.mapType f)
    owned := by
      rw [← List.map_append]
      intro m hm
      obtain ⟨d, hd, rfl⟩ := List.mem_map.mp hm
      exact l.owned d hd }

/-- New names that mean nothing else in the declaration of a class. -/
structure Fresh (ρ : String → String) (l : ClassLayer) : Prop where
  separate : KeepsApart ρ l.typeParams
  unused : ∀ t ∈ l.types, ∀ n, t.mentions n = true → Avoids ρ l.typeParams n
  undeclared : ∀ m ∈ l.members, ∀ q ∈ m.typeParams, Avoids ρ l.typeParams q.name
  void : ∀ p ∈ l.typeParams, canonicalName (ρ p.name) = "Void" ↔ canonicalName p.name = "Void"

/-- A class and the same class with new names for its type parameters. -/
def Like (l l' : ClassLayer) : Prop := ∃ ρ, l.Fresh ρ ∧ l' = l.renamed ρ

theorem substitute_newNames_self
    (ps : List TypeParam) (t : TypeExpr) :
    t.substitute (newNames (fun n => n) ps) = t := by
  refine TypeExpr.substitute_eq_self t fun n _ => ?_
  by_cases hn : Has ps n
  · rw [Bindings.meaning, get?_newNames_of_has hn]
    rfl
  · rw [Bindings.meaning, get?_newNames_of_not_has hn]
    rfl

/-- Names that stay change nothing. -/
theorem renamed_self
    (l : ClassLayer) :
    l.renamed (fun n => n) = l := by
  have hsubst (ps : List TypeParam) :
      TypeExpr.substitute (newNames (fun n => n) ps) = fun t => t :=
    funext (substitute_newNames_self ps)
  have hmethod (m : Method) : m.renamed (fun n => n) l.typeParams = m := by
    simp [Method.renamed, hsubst, Param.mapType]
  simp [renamed, hsubst, hmethod, TypeParam.renamed, FieldDef.mapType, Param.mapType]

theorem Like.refl
    (l : ClassLayer) :
    l.Like l := by
  refine ⟨fun n => n, ?_, l.renamed_self.symm⟩
  exact ⟨fun p _ q _ h => h, fun t _ n _ p _ h => h, fun m _ q _ p _ h => h, fun p _ => Iff.rfl⟩

end ClassLayer

end ScriptEngine
