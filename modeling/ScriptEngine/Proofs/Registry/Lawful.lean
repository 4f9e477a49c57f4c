import Mathlib.Logic.Relation
import ScriptEngine.Proofs.Registry.Declaration
import ScriptEngine.Proofs.Registry.Reach

/-!
# What is promised of declared types

`TypeDef.Lawful` collects what the checks of declarations are for:

1. the parent of a class is a class, and a sealed parent permits it;
2. so does every sealed interface that a type implements or extends;
3. no parameter of a method mentions an `out` parameter of the type, and no result an `in` parameter;
4. what is abstract in the lineage of a class or in an interface in reach has a body, unless the
   class is abstract itself.

A declaration that passes its checks makes a lawful type (`lawful_of_checked`).  The fourth promise
speaks of all that is in reach, while the check goes by the numbers of interfaces, so it is kept
only among coherent interfaces.

What is registered is lawful under its name, and no name stands for both a class and an interface: a
name is vacant in the other table when its type is entered.  Threads may take the two steps of their
registrations in any order (`Shared.staysLawful`); only where a class and an interface of one name are
registered at the same time both may stay (`Shared.both_of_clash`).
-/

namespace ScriptEngine

/-! ### Promises -/

/-- A type parameter occurs in a type expression, at any depth. -/
inductive TypeExpr.Mentions (param : String) : TypeExpr → Prop
  | head (as : List TypeExpr) : Mentions param (.named param as)
  | argument {n : String} {as : List TypeExpr} {a : TypeExpr} :
      a ∈ as → Mentions param a → Mentions param (.named n as)
  | member {ms : List TypeExpr} {m : TypeExpr} :
      m ∈ ms → Mentions param m → Mentions param (.union ms)
  | upper {b : TypeExpr} : Mentions param b → Mentions param (.boundedAbove b)
  | lower {b : TypeExpr} : Mentions param b → Mentions param (.boundedBelow b)

/-- A sealed type with a list of permitted names has a name on it. -/
def Permits (isSealed : Bool) (permits : List String) (name : String) : Prop :=
  isSealed = true → permits ≠ [] → name ∈ permits

/-- A method uses a type parameter only as its variance allows. -/
structure Method.Respects (m : Method) (p : TypeParam) : Prop where
  output : p.variance = .output → ∀ q ∈ m.params, ∀ e, q.type = some e → ¬ e.Mentions p.name
  input : p.variance = .input → ∀ e, m.returns = some e → ¬ e.Mentions p.name

/-- A method of a name is abstract in the lineage of a class or in an interface in reach. -/
inductive ClassDef.Demands (c : ClassDef) (name : String) : Prop
  | lineage {l : ClassLayer} {m : Method} :
      l ∈ c.layers → m ∈ l.methods → m.name = name → m.isAbstract = true → Demands c name
  | interface {i : Interface} {m : Method} :
      c.Reaches i → m ∈ i.own.methods → m.name = name → m.isAbstract = true → Demands c name

namespace TypeDef

def parent? : TypeDef → Option ClassDef
  | cls c => c.parent?
  | interface _ => none

/-- The interfaces that a type implements or extends. -/
def interfaces : TypeDef → List Interface
  | cls c => c.own.interfaces
  | interface i => i.parents

def typeParams : TypeDef → List TypeParam
  | cls c => c.own.typeParams
  | interface i => i.own.typeParams

/-- The methods that a type declares, but for the static ones of a class. -/
def methods : TypeDef → List Method
  | cls c => c.own.methods
  | interface i => i.own.methods

/-- A declared type is as the checks of its declaration want it. -/
structure Lawful (t : TypeDef) : Prop where
  parent : ∀ p, t.parent? = some p → p.kind = .cls ∧ Permits p.own.isSealed p.own.permits t.name
  interfaces : ∀ i ∈ t.interfaces, Permits i.own.isSealed i.own.permits t.name
  variance : ∀ m ∈ t.methods, m.isStatic = false → ∀ p ∈ t.typeParams, m.Respects p
  complete : ∀ c, t = .cls c → c.own.isAbstract = false → ∀ name, c.Demands name →
    ∃ m ∈ c.usableMethods name, m.name = name ∧ m.body.isSome

end TypeDef

/-- What is registered is lawful, under its own name, and not both as a class and an interface. -/
structure Registry.Lawful (r : Registry) : Prop where
  classes : ∀ name c, r.cls? name = some c → c.name = name ∧ (TypeDef.cls c).Lawful
  interfaces : ∀ name i, r.interface? name = some i → i.name = name ∧ (TypeDef.interface i).Lawful
  exclusive : ∀ name, r.cls? name = none ∨ r.interface? name = none

namespace Registry

/-- The name of a type is none of the other table. -/
def Vacant (r : Registry) : TypeDef → Prop
  | .cls c => r.interface? c.name = none
  | .interface i => r.cls? i.name = none

/-- A class and an interface of one name. -/
def Clash : TypeDef → TypeDef → Prop
  | .cls c, .interface i => c.name = i.name
  | .interface i, .cls c => c.name = i.name
  | _, _ => False

variable {r : Registry} {t u : TypeDef}

theorem lawful_empty : Lawful ∅ :=
  ⟨fun _ _ hfind => (nomatch hfind), fun _ _ hfind => (nomatch hfind), fun _ => .inl rfl⟩

theorem Lawful.types
    {name : String} (hr : r.Lawful) (ht : r.find? name = some t) :
    t.name = name ∧ t.Lawful := by
  obtain ⟨c, rfl, hc⟩ | ⟨i, rfl, hi⟩ := cls?_or_interface?_of_find? ht
  · exact hr.classes name c hc
  · exact hr.interfaces name i hi

/-- A type is no longer what it was erased from. -/
theorem eq_some_of_erase
    {α : Type} {m : Assoc α} {name other : String} {a : α}
    (ha : (m.erase name).find? other = some a) :
    m.find? other = some a := by
  rw [Assoc.find?_erase] at ha
  split at ha
  · cases ha
  · exact ha

/-- The first step of a registration keeps what is lawful. -/
theorem Lawful.vacate
    (hr : r.Lawful) (t : TypeDef) :
    (r.vacate t).Lawful := by
  have herased {α : Type} {m : Assoc α} {name other : String} (hm : m.find? other = none) :
      (m.erase name).find? other = none := by
    rw [Assoc.find?_erase, hm, ite_self]
  cases t with
  | cls c =>
      exact ⟨hr.classes, fun name i hi => hr.interfaces name i (eq_some_of_erase hi),
        fun name => (hr.exclusive name).imp_right herased⟩
  | interface i =>
      exact ⟨fun name c hc => hr.classes name c (eq_some_of_erase hc), hr.interfaces,
        fun name => (hr.exclusive name).imp_left herased⟩

theorem vacant_vacate
    (r : Registry) (t : TypeDef) :
    (r.vacate t).Vacant t := by
  cases t with
  | cls c =>
      exact (Assoc.find?_erase r.interfaces c.name c.name).trans (if_pos rfl)
  | interface i =>
      exact (Assoc.find?_erase r.classes i.name i.name).trans (if_pos rfl)

/-- The second step keeps it, if the name is still none of the other table. -/
theorem Lawful.enter
    (hr : r.Lawful) (ht : t.Lawful) (hvacant : r.Vacant t) :
    (r.enter t).Lawful := by
  cases t with
  | cls c =>
      have hfind (name : String) : (r.enter (.cls c)).cls? name = _ :=
        Assoc.find?_insert r.classes c.name name c
      refine ⟨fun name d hd => ?_, hr.interfaces, fun name => ?_⟩
      · rw [hfind] at hd
        split at hd
        · next hname =>
            cases hd
            exact ⟨hname, ht⟩
        · exact hr.classes name d hd
      · rw [hfind]
        split
        · next hname =>
            exact .inr (hname ▸ hvacant)
        · exact hr.exclusive name
  | interface i =>
      have hfind (name : String) : (r.enter (.interface i)).interface? name = _ :=
        Assoc.find?_insert r.interfaces i.name name i
      refine ⟨hr.classes, fun name j hj => ?_, fun name => ?_⟩
      · rw [hfind] at hj
        split at hj
        · next hname =>
            cases hj
            exact ⟨hname, ht⟩
        · exact hr.interfaces name j hj
      · rw [hfind]
        split
        · next hname =>
            exact .inl (hname ▸ hvacant)
        · exact hr.exclusive name

/-- A lawful type may be registered, whatever its name stood for. -/
theorem Lawful.put
    (hr : r.Lawful) (ht : t.Lawful) :
    (r.put t).Lawful := by
  exact (hr.vacate t).enter ht (vacant_vacate r t)

/-! ### Registrations by several threads -/

theorem Vacant.vacate
    (ht : r.Vacant t) (u : TypeDef) :
    (r.vacate u).Vacant t := by
  have herased {α : Type} {m : Assoc α} {name other : String} (hm : m.find? other = none) :
      (m.erase name).find? other = none := by
    rw [Assoc.find?_erase, hm, ite_self]
  cases t <;> cases u
  · exact herased ht
  · exact ht
  · exact ht
  · exact herased ht

/-- Only a type that it clashes with takes a name that is vacant for a type. -/
theorem Vacant.enter
    (ht : r.Vacant t) (hclash : ¬ Clash t u) :
    (r.enter u).Vacant t := by
  have hinserted {α : Type} {m : Assoc α} {name other : String} {a : α} (hm : m.find? other = none)
      (hne : name ≠ other) : (m.insert name a).find? other = none := by
    rw [Assoc.find?_insert, if_neg hne, hm]
  cases t <;> cases u
  · exact ht
  · exact hinserted ht (Ne.symm hclash)
  · exact hinserted ht hclash
  · exact ht

/-- A registry with what several threads, known by numbers, have begun to register in it. -/
structure Shared where
  registry : Registry
  begun : Nat → Option TypeDef

namespace Shared

/-- A registry in which nothing is being registered. -/
def quiet (r : Registry) : Shared := ⟨r, fun _ => none⟩

/-- A thread takes one of the two steps of a registration. -/
inductive Step : Shared → Shared → Prop
  | vacate {s : Shared} {thread : Nat} {t : TypeDef} :
      s.begun thread = none → t.Lawful →
      Step s ⟨s.registry.vacate t, Function.update s.begun thread (some t)⟩
  | enter {s : Shared} {thread : Nat} {t : TypeDef} :
      s.begun thread = some t →
      Step s ⟨s.registry.enter t, Function.update s.begun thread none⟩

/-- Two threads register a class and an interface of one name at the same time. -/
def Clashes (s : Shared) : Prop :=
  ∃ i j t u, s.begun i = some t ∧ s.begun j = some u ∧ Clash t u

/-- The threads take steps in any order, and never do two registrations clash. -/
def Runs : Shared → Shared → Prop := Relation.ReflTransGen fun s s' => s.Step s' ∧ ¬ s'.Clashes

/-- What is registered is lawful, and there is room for all that is being registered. -/
structure Sound (s : Shared) : Prop where
  registry : s.registry.Lawful
  lawful : ∀ thread t, s.begun thread = some t → t.Lawful
  vacant : ∀ thread t, s.begun thread = some t → s.registry.Vacant t
  apart : ¬ s.Clashes

theorem Sound.quiet
    (hr : r.Lawful) :
    (quiet r).Sound where
  registry := hr
  lawful _ _ ht := nomatch ht
  vacant _ _ ht := nomatch ht
  apart := by
    rintro ⟨_, _, _, _, ht, -⟩
    cases ht

/-- A thread has begun what it did before, unless it takes the step. -/
theorem begun_update
    {begun : Nat → Option TypeDef} {i thread : Nat} {o : Option TypeDef}
    (hi : Function.update begun thread o i = some t) :
    (i = thread ∧ o = some t) ∨ (i ≠ thread ∧ begun i = some t) := by
  by_cases heq : i = thread
  · subst heq
    rw [Function.update_self] at hi
    exact .inl ⟨rfl, hi⟩
  · rw [Function.update_of_ne heq] at hi
    exact .inr ⟨heq, hi⟩

theorem Sound.step
    {s s' : Shared} (hs : s.Sound) (hstep : s.Step s') (hapart : ¬ s'.Clashes) :
    s'.Sound := by
  cases hstep with
  | @vacate thread t hidle ht =>
      refine ⟨hs.registry.vacate t, fun i u hi => ?_, fun i u hi => ?_, hapart⟩
      · obtain ⟨-, hu⟩ | ⟨-, hi⟩ := begun_update hi
        · cases hu
          exact ht
        · exact hs.lawful i u hi
      · obtain ⟨-, hu⟩ | ⟨-, hi⟩ := begun_update hi
        · cases hu
          exact vacant_vacate s.registry t
        · exact (hs.vacant i u hi).vacate t
  | @enter thread t hbegun =>
      refine ⟨hs.registry.enter (hs.lawful thread t hbegun) (hs.vacant thread t hbegun),
        fun i u hi => ?_, fun i u hi => ?_, hapart⟩
      · obtain ⟨-, hu⟩ | ⟨-, hi⟩ := begun_update hi
        · cases hu
        · exact hs.lawful i u hi
      · obtain ⟨-, hu⟩ | ⟨-, hi⟩ := begun_update hi
        · cases hu
        · refine (hs.vacant i u hi).enter fun hclash => hs.apart ?_
          exact ⟨i, thread, u, t, hi, hbegun, hclash⟩

/-- From a registry on, what several threads register stays lawful as long as no two registrations
clash. -/
def StaysLawful (r : Registry) : Prop := ∀ s, (quiet r).Runs s → s.registry.Lawful

/-- However threads take turns, they keep what is lawful. -/
theorem staysLawful
    (hr : r.Lawful) :
    StaysLawful r := by
  intro s hruns
  have hsound : s.Sound := by
    induction hruns with
    | refl =>
        exact .quiet hr
    | tail _ hstep ih =>
        exact ih.step hstep.1 hstep.2
  exact hsound.registry

end Shared
end Registry

/-! ### What the checks find -/

namespace TypeExpr

mutual

theorem mentions_iff (param : String) (e : TypeExpr) :
    e.mentions param = true ↔ e.Mentions param := by
  cases e with
  | named n as =>
      rw [mentions, Bool.or_eq_true, beq_iff_eq, mentionsAny_iff param as]
      constructor
      · rintro (rfl | ⟨a, ha, hmentions⟩)
        · exact .head as
        · exact .argument ha hmentions
      · rintro (_ | ⟨ha, hmentions⟩)
        · exact .inl rfl
        · exact .inr ⟨_, ha, hmentions⟩
  | union ms =>
      rw [mentions, mentionsAny_iff param ms]
      constructor
      · rintro ⟨m, hm, hmentions⟩
        exact .member hm hmentions
      · rintro (_ | _ | ⟨hm, hmentions⟩)
        exact ⟨_, hm, hmentions⟩
  | wildcard =>
      exact ⟨fun h => (nomatch h), fun h => (nomatch h)⟩
  | boundedAbove b =>
      rw [mentions, mentions_iff param b]
      exact ⟨.upper, fun | .upper h => h⟩
  | boundedBelow b =>
      rw [mentions, mentions_iff param b]
      exact ⟨.lower, fun | .lower h => h⟩

theorem mentionsAny_iff (param : String) (es : List TypeExpr) :
    mentionsAny param es = true ↔ ∃ e ∈ es, e.Mentions param := by
  cases es with
  | nil =>
      exact ⟨fun h => (nomatch h), fun ⟨_, h, _⟩ => (nomatch h)⟩
  | cons e rest =>
      rw [mentionsAny, Bool.or_eq_true, mentions_iff param e, mentionsAny_iff param rest]
      simp

end

end TypeExpr

theorem permits_of_check
    {isSealed : Bool} {permits : List String} {name : String}
    (hcheck : ¬ (isSealed && !Eval.permitsName permits name) = true) :
    Permits isSealed permits name := by
  intro hsealed hne
  simpa [hsealed, Eval.permitsName, hne] using hcheck

/-- A method without a fault uses a type parameter as its variance allows. -/
theorem Method.respects_of_misuse?
    {m : Method} {p : TypeParam}
    (hnone : misuse? p m = none) :
    m.Respects p := by
  unfold misuse? at hnone
  constructor
  · intro hvariance q hq e he hmentions
    rw [hvariance] at hnone
    have hmem : e ∈ m.params.filterMap (·.type) := List.mem_filterMap.mpr ⟨q, hq, he⟩
    simp only [ite_eq_right_iff, reduceCtorEq, imp_false, Bool.not_eq_true,
      List.any_eq_false] at hnone
    exact absurd ((TypeExpr.mentions_iff _ _).mpr hmentions) (by simp [hnone e hmem])
  · intro hvariance e he hmentions
    rw [hvariance] at hnone
    simp only [ite_eq_right_iff, reduceCtorEq, imp_false, he, Option.any_some] at hnone
    exact hnone ((TypeExpr.mentions_iff _ _).mpr hmentions)

theorem respects_of_varianceFault?
    {ps : List TypeParam} {ms : List Method}
    (hnone : varianceFault? ps ms = none) :
    ∀ m ∈ ms, m.isStatic = false → ∀ p ∈ ps, m.Respects p := by
  intro m hm hstatic p hp
  have hmem : m ∈ ms.filter (!·.isStatic) := List.mem_filter.mpr ⟨hm, by simp [hstatic]⟩
  exact Method.respects_of_misuse?
    (List.findSome?_eq_none_iff.mp (List.findSome?_eq_none_iff.mp hnone m hmem) p hp)

/-- A usable method has the name it is looked up by, and a body. -/
theorem ClassDef.of_mem_usableMethods
    {c : ClassDef} {name : String} {m : Method}
    (hm : m ∈ c.usableMethods name) :
    m.name = name ∧ m.body.isSome := by
  have hbodies {ms : List Method} (hm : m ∈ bodiesNamed ms name) : m.name = name ∧ m.body.isSome := by
    obtain ⟨-, hname, hbody⟩ := mem_bodiesNamed_iff.mp hm
    exact ⟨hname, by rwa [← Option.isNone_eq_false_iff]⟩
  rcases List.mem_append.mp hm with hm | hm
  · obtain ⟨l, -, hm⟩ := List.mem_flatMap.mp hm
    exact hbodies hm
  · obtain ⟨i, -, hm⟩ := List.mem_flatMap.mp hm
    exact hbodies hm

theorem exists_usable_of_unimplemented?
    {c : ClassDef} {ms : List Method} {m : Method}
    (hnone : unimplemented? c ms = none) (hm : m ∈ ms) (habstract : m.isAbstract = true) :
    ∃ n ∈ c.usableMethods m.name, n.name = m.name ∧ n.body.isSome := by
  rw [unimplemented?, Option.map_eq_none_iff, List.find?_eq_none] at hnone
  have hne : c.usableMethods m.name ≠ [] := by simpa [habstract] using hnone m hm
  obtain ⟨n, hn⟩ := List.exists_mem_of_ne_nil _ hne
  exact ⟨n, hn, c.of_mem_usableMethods hn⟩

/-- A class without a missing body has one for all that is demanded of it. -/
theorem ClassDef.complete_of_missingBody?
    {c : ClassDef} {name : String}
    (hcoherent : Interface.Coherent {i | c.Reaches i}) (hnone : c.missingBody? = none)
    (hdemands : c.Demands name) :
    ∃ m ∈ c.usableMethods name, m.name = name ∧ m.body.isSome := by
  unfold ClassDef.missingBody? at hnone
  obtain ⟨hinterfaces, hlayers⟩ := Option.or_eq_none_iff.mp ((Option.orElse_eq_or).symm.trans hnone)
  rw [List.findSome?_eq_none_iff] at hinterfaces hlayers
  cases hdemands with
  | lineage hl hm hname habstract =>
      subst hname
      exact exists_usable_of_unimplemented? (Option.map_eq_none_iff.mp (hlayers _ hl)) hm habstract
  | interface hi hm hname habstract =>
      subst hname
      have hmem := c.mem_implementedInterfaces hcoherent hi
      exact exists_usable_of_unimplemented? (Option.map_eq_none_iff.mp (hinterfaces _ hmem)) hm
        habstract

/-! ### Supertypes -/

section Supertypes

variable {h : Heap} {env : Env} {child : String}

theorem of_parentOf
    {e : TypeExpr} {p : ClassDef}
    (hok : Eval.parentOf h env child e = .ok p) :
    p.kind = .cls ∧ Permits p.own.isSealed p.own.permits child := by
  obtain ⟨name, -, hok⟩ := TypeDecl.of_bind_eq_ok hok
  obtain ⟨q, -, hok⟩ := TypeDecl.of_bind_eq_ok hok
  dsimp only at hok
  split at hok
  · cases hok
  next hkind =>
    split at hok
    · cases hok
    next hpermits =>
      cases hok
      exact ⟨by simpa using hkind, permits_of_check hpermits⟩

theorem of_resolveInterface
    {e : TypeExpr} {i : Interface}
    (hok : Eval.resolveInterface h env child e = .ok i) :
    Permits i.own.isSealed i.own.permits child := by
  obtain ⟨name, -, hok⟩ := TypeDecl.of_bind_eq_ok hok
  obtain ⟨j, -, hok⟩ := TypeDecl.of_bind_eq_ok hok
  dsimp only at hok
  split at hok
  · cases hok
  next hpermits =>
    cases hok
    exact permits_of_check hpermits

theorem of_interfacesOf
    {es : List TypeExpr} {is : List Interface}
    (hok : Eval.interfacesOf h env child es = .ok is) :
    ∀ i ∈ is, ∃ e ∈ es, Eval.resolveInterface h env child e = .ok i := by
  unfold Eval.interfacesOf at hok
  induction es generalizing is with
  | nil =>
      cases hok
      exact fun i hi => nomatch hi
  | cons e rest ih =>
      rw [List.mapM_cons] at hok
      obtain ⟨i, hi, hok⟩ := TypeDecl.of_bind_eq_ok hok
      obtain ⟨is', his', hok⟩ := TypeDecl.of_bind_eq_ok hok
      cases hok
      intro j hj
      rcases List.mem_cons.mp hj with rfl | hj
      · exact ⟨e, List.mem_cons_self, hi⟩
      · obtain ⟨e', he', hj'⟩ := ih his' j hj
        exact ⟨e', List.mem_cons_of_mem _ he', hj'⟩

theorem permits_of_interfacesOf
    {es : List TypeExpr} {is : List Interface}
    (hok : Eval.interfacesOf h env child es = .ok is) :
    ∀ i ∈ is, Permits i.own.isSealed i.own.permits child := by
  intro i hi
  obtain ⟨e, -, he⟩ := of_interfacesOf hok i hi
  exact of_resolveInterface he

end Supertypes

/-! ### Declarations -/

/-- A declaration that passes its checks makes a lawful type. -/
theorem TypeDecl.lawful_of_checked
    {d : TypeDecl} {h : Heap} {env : Env} {t : TypeDef}
    (hok : d.checked h env = .ok t) (hcoherent : Interface.Coherent {i | t.Reaches i}) :
    t.Lawful := by
  cases d with
  | cls d =>
      obtain ⟨parent, interfaces, hparent, hinterfaces, hvariance, rfl, hbodies⟩ :=
        of_checked_cls hok
      refine ⟨fun p hp => ?_, permits_of_interfacesOf hinterfaces,
        respects_of_varianceFault? hvariance, fun c hc habstract name hdemands => ?_⟩
      · cases parent with
        | none =>
            cases hp
        | some q =>
            cases hp
            obtain ⟨e, he⟩ := hparent q rfl
            exact of_parentOf he
      · cases hc
        have hconcrete : d.isAbstract = false := habstract
        exact ClassDef.complete_of_missingBody? hcoherent
          (hbodies.resolve_left (by simp [hconcrete])) hdemands
  | interface d =>
      obtain ⟨parents, hparents, rfl, hvariance⟩ := of_checked_interface hok
      exact ⟨fun p hp => (nomatch hp), permits_of_interfacesOf hparents,
        respects_of_varianceFault? hvariance, fun c hc => (nomatch hc)⟩
  | enumeration d =>
      obtain ⟨interfaces, hinterfaces, rfl, hbodies⟩ := of_checked_enumeration hok
      refine ⟨fun p hp => (nomatch hp), permits_of_interfacesOf hinterfaces,
        fun m _ _ p hp => (nomatch hp), fun c hc _ name hdemands => ?_⟩
      cases hc
      exact ClassDef.complete_of_missingBody? hcoherent hbodies hdemands
  | record d =>
      obtain ⟨interfaces, hinterfaces, hvariance, rfl, hbodies⟩ := of_checked_record hok
      refine ⟨fun p hp => (nomatch hp), permits_of_interfacesOf hinterfaces,
        respects_of_varianceFault? hvariance, fun c hc _ name hdemands => ?_⟩
      cases hc
      exact ClassDef.complete_of_missingBody? hcoherent hbodies hdemands

/-! ### Registrations that clash -/

/-- A class and an interface of one name, with nothing of their own. -/
def plainClass : ClassDecl Expr Stmt := ⟨"A", [], none, [], false, false, [], [], [], [], default⟩

def plainInterface : InterfaceDecl Expr Stmt := ⟨"A", [], [], false, [], [], [], default⟩

open Registry.Shared in
/-- One thread registers a class while another one registers an interface of its name: both names are
vacant when the types are entered, and both types stay. -/
theorem Registry.Shared.both_of_clash :
    ∃ c i s, (TypeDecl.cls plainClass).checked .empty [] = .ok (.cls c) ∧
      (TypeDecl.interface plainInterface).checked .empty [] = .ok (.interface i) ∧
      Relation.ReflTransGen Step (quiet ∅) s ∧ (∀ thread, s.begun thread = none) ∧
      s.registry.cls? "A" = some c ∧ s.registry.interface? "A" = some i := by
  let c := plainClass.toClass 0 [] none []
  let i := plainInterface.toInterface 0 [] []
  have hcls : (TypeDecl.cls plainClass).checked .empty [] = .ok (.cls c) := rfl
  have hinterface : (TypeDecl.interface plainInterface).checked .empty [] = .ok (.interface i) := rfl
  have hc : (TypeDef.cls c).Lawful := by
    refine TypeDecl.lawful_of_checked hcls ?_
    rintro _ ⟨l, hl, k, hk, -⟩
    obtain rfl : l = c.own := List.mem_singleton.mp hl
    cases hk
  have hi : (TypeDef.interface i).Lawful := by
    refine TypeDecl.lawful_of_checked hinterface ?_
    have hself {j : Interface} (hj : i.Reaches j) : j = i := by
      cases hj with
      | refl =>
          rfl
      | step hp _ =>
          cases hp
    intro j hj k hk _
    rw [hself hj, hself hk]
  -- Both threads take the first step before either takes the second one.
  let r₁ := (∅ : Registry).vacate (.cls c)
  let r₂ := r₁.vacate (.interface i)
  let r₃ := r₂.enter (.cls c)
  let begun := Function.update (Function.update (quiet ∅).begun 0 (some (.cls c))) 1
    (some (.interface i))
  let s : Shared := ⟨r₃.enter (.interface i), Function.update (Function.update begun 0 none) 1 none⟩
  refine ⟨c, i, s, hcls, hinterface, ?_, fun thread => ?_, rfl, rfl⟩
  · have hfirst : (quiet ∅).Step ⟨r₁, Function.update (quiet ∅).begun 0 (some (.cls c))⟩ :=
      .vacate rfl hc
    have hsecond : Step ⟨r₁, Function.update (quiet ∅).begun 0 (some (.cls c))⟩ ⟨r₂, begun⟩ :=
      .vacate rfl hi
    have hthird : Step ⟨r₂, begun⟩ ⟨r₃, Function.update begun 0 none⟩ := .enter rfl
    have hfourth : Step ⟨r₃, Function.update begun 0 none⟩ s := .enter rfl
    exact (((Relation.ReflTransGen.single hfirst).tail hsecond).tail hthird).tail hfourth
  · simp +contextual [s, begun, quiet, Function.update_apply]

end ScriptEngine
