import ScriptEngine.Proofs.Evaluation.Implementations
import ScriptEngine.Proofs.Registry.Order

/-!
# Overriding and overloading

A name and a number of arguments select one of the methods of a class.  An exact match wins over a
variadic one wherever the two are declared, and among matches of one kind the nearest class wins,
then the first interface; in one declaration the first method wins.

* `ClassDef.Selects` says this by the places where methods are declared.
* `select_eq_iff`: the list of candidates, which leaves out methods without a body and lists the
  lineage before the interfaces, has the selected method as its first match.
* `Gains.usableMethods_eq`: a new method comes in at one place of the list.
* `ClassDef.selection_coherent`: calls go to the selected method, and a new overload that does not
  take the number of arguments changes nothing.
-/

namespace ScriptEngine

/-! ### The first of its kind -/

section IsFirst

variable {α β : Type} {P : α → Prop} {p : α → Bool} {l : List α} {a : α}

/-- An element of a list with a property that none before it has. -/
def IsFirst (P : α → Prop) (l : List α) (a : α) : Prop :=
  ∃ before after, l = before ++ a :: after ∧ P a ∧ ∀ b ∈ before, ¬ P b

theorem IsFirst.mem
    (h : IsFirst P l a) :
    a ∈ l := by
  obtain ⟨before, after, rfl, -, -⟩ := h
  simp

theorem find?_eq_some_iff_isFirst
    (hp : ∀ b, p b = true ↔ P b) :
    l.find? p = some a ↔ IsFirst P l a := by
  rw [List.find?_eq_some_iff_append]
  constructor
  · rintro ⟨ha, before, after, rfl, hbefore⟩
    exact ⟨before, after, rfl, (hp a).mp ha, fun b hb => by simpa [← hp b] using hbefore b hb⟩
  · rintro ⟨before, after, rfl, ha, hbefore⟩
    exact ⟨(hp a).mpr ha, before, after, rfl, fun b hb => by simpa [← hp b] using hbefore b hb⟩

/-- The first of all elements is the first in the first list that has any. -/
theorem findSome?_eq_some_iff_isFirst
    {f : β → List α} {ls : List β} (hp : ∀ b, p b = true ↔ P b) :
    (ls.findSome? fun x => (f x).find? p) = some a ↔
      ∃ x, IsFirst (fun x => ∃ b ∈ f x, P b) ls x ∧ IsFirst P (f x) a := by
  have hnone (x : β) : (f x).find? p = none ↔ ¬ ∃ b ∈ f x, P b := by
    simp [List.find?_eq_none, hp]
  rw [List.findSome?_eq_some_iff]
  constructor
  · rintro ⟨before, x, after, rfl, hx, hbefore⟩
    have hfirst := (find?_eq_some_iff_isFirst hp).mp hx
    obtain ⟨_, _, _, ha, _⟩ := id hfirst
    exact ⟨x, ⟨before, after, rfl, ⟨a, hfirst.mem, ha⟩,
      fun y hy => (hnone y).mp (hbefore y hy)⟩, hfirst⟩
  · rintro ⟨x, ⟨before, after, rfl, -, hbefore⟩, hfirst⟩
    exact ⟨before, x, after, rfl, (find?_eq_some_iff_isFirst hp).mpr hfirst,
      fun y hy => (hnone y).mpr (hbefore y hy)⟩

end IsFirst

/-! ### What takes a number of arguments -/

namespace Overload

variable {α : Type} {params : α → List Param} {xs ys : List α} {a : α} {argc : Nat}

/-- A candidate that does not take the number of arguments is passed over. -/
theorem select_insert
    (ha : accepts (params a) argc = false) :
    select params (xs ++ a :: ys) argc = select params (xs ++ ys) argc := by
  have hexact : (!isVariadic (params a) && (params a).length == argc) = false := by
    by_contra hfits
    simp only [Bool.not_eq_false, Bool.and_eq_true, Bool.not_eq_true', beq_iff_eq] at hfits
    simp [accepts, hfits.1, hfits.2] at ha
  have hvariadic : (isVariadic (params a) && decide (fixedArity (params a) ≤ argc)) = false := by
    by_contra hfits
    simp only [Bool.not_eq_false, Bool.and_eq_true, decide_eq_true_eq] at hfits
    simp [accepts, hfits.1, hfits.2] at ha
  simp only [select, List.find?_append, List.find?_cons, hexact, hvariadic]

end Overload

/-- A method of a name has a body and as many parameters as there are arguments. -/
structure Method.Takes (m : Method) (name : String) (argc : Nat) : Prop where
  named : m.name = name
  body : m.body.isSome
  fixed : Overload.isVariadic m.params = false
  count : m.params.length = argc

/-- A variadic method of a name has a body, and there are enough arguments for its fixed parameters. -/
structure Method.TakesMore (m : Method) (name : String) (argc : Nat) : Prop where
  named : m.name = name
  body : m.body.isSome
  variadic : Overload.isVariadic m.params = true
  count : Overload.fixedArity m.params ≤ argc

namespace ClassDef

variable {c c' : ClassDef} {P : Method → Prop} {p : Method → Bool} {m : Method} {name : String}
variable {argc : Nat}

/-- The first method of a kind: that of the nearest class that has any, or else that of the first
interface. -/
inductive Finds (c : ClassDef) (P : Method → Prop) (m : Method) : Prop
  | declared {l : ClassLayer} (hl : IsFirst (fun l => ∃ m ∈ l.methods, P m) c.layers l)
      (hm : IsFirst P l.methods m) : Finds c P m
  | default {i : Interface} (hnone : ∀ l ∈ c.layers, ∀ m ∈ l.methods, ¬ P m)
      (hi : IsFirst (fun i => ∃ m ∈ i.own.methods, P m) c.interfacesInOrder i)
      (hm : IsFirst P i.own.methods m) : Finds c P m

/-- There is no method of a kind in the lineage or in an interface in reach. -/
structure Lacks (c : ClassDef) (P : Method → Prop) : Prop where
  lineage : ∀ l ∈ c.layers, ∀ m ∈ l.methods, ¬ P m
  interfaces : ∀ i, c.Reaches i → ∀ m ∈ i.own.methods, ¬ P m

/-- What a name and a number of arguments select: an exact match, or else a variadic one. -/
inductive Selects (c : ClassDef) (name : String) (argc : Nat) : Option Method → Prop
  | exact {m : Method} (h : c.Finds (·.Takes name argc) m) : Selects c name argc (some m)
  | variadic {m : Method} (hexact : c.Lacks (·.Takes name argc))
      (h : c.Finds (·.TakesMore name argc) m) : Selects c name argc (some m)
  | none (hexact : c.Lacks (·.Takes name argc)) (hvariadic : c.Lacks (·.TakesMore name argc)) :
      Selects c name argc none

/-! ### Candidates -/

/-- A search among the candidates goes through the lineage and then through the interfaces. -/
theorem find?_usableMethods
    (c : ClassDef) (name : String) (p : Method → Bool) :
    (c.usableMethods name).find? p =
      (c.layers.findSome? fun l => l.methods.find? fun m => m.name == name && !m.isAbstract && p m).or
        (c.implementedInterfaces.findSome? fun i =>
          i.own.methods.find? fun m => m.name == name && !m.isAbstract && p m) := by
  simp only [usableMethods, bodiesNamed, methodsNamed, List.find?_append, List.find?_flatMap,
    List.find?_filter, Bool.decide_and, Bool.decide_eq_true, Bool.and_assoc]

section Search

variable (hp : ∀ m, (m.name == name && !m.isAbstract && p m) = true ↔ P m)
variable (hc : Interface.Coherent {i | c.Reaches i})
include hp hc

theorem find?_usableMethods_eq_none_iff :
    (c.usableMethods name).find? p = none ↔ c.Lacks P := by
  rw [find?_usableMethods, findSome?_implementedInterfaces _ hc, Option.or_eq_none_iff]
  simp only [List.findSome?_eq_none_iff, List.find?_eq_none, hp, mem_interfacesInOrder_iff]
  constructor
  · rintro ⟨hlineage, hinterfaces⟩
    exact ⟨hlineage, hinterfaces⟩
  · rintro ⟨hlineage, hinterfaces⟩
    exact ⟨hlineage, hinterfaces⟩

theorem find?_usableMethods_eq_some_iff :
    (c.usableMethods name).find? p = some m ↔ c.Finds P m := by
  rw [find?_usableMethods, findSome?_implementedInterfaces _ hc, Option.or_eq_some_iff,
    findSome?_eq_some_iff_isFirst hp, findSome?_eq_some_iff_isFirst hp]
  simp only [List.findSome?_eq_none_iff, List.find?_eq_none, hp]
  constructor
  · rintro (⟨l, hl, hm⟩ | ⟨hnone, i, hi, hm⟩)
    · exact .declared hl hm
    · exact .default hnone hi hm
  · rintro (⟨hl, hm⟩ | ⟨hnone, hi, hm⟩)
    · exact .inl ⟨_, hl, hm⟩
    · exact .inr ⟨hnone, _, hi, hm⟩

end Search

theorem takes_iff
    (name : String) (argc : Nat) (m : Method) :
    (m.name == name && !m.isAbstract && (!Overload.isVariadic m.params && m.params.length == argc)) =
      true ↔ m.Takes name argc := by
  simp only [Method.isAbstract, Bool.and_eq_true, beq_iff_eq, Bool.not_eq_true',
    Option.isNone_eq_false_iff]
  constructor
  · rintro ⟨⟨hname, hbody⟩, hfixed, hcount⟩
    exact ⟨hname, hbody, hfixed, hcount⟩
  · rintro ⟨hname, hbody, hfixed, hcount⟩
    exact ⟨⟨hname, hbody⟩, hfixed, hcount⟩

theorem takesMore_iff
    (name : String) (argc : Nat) (m : Method) :
    (m.name == name && !m.isAbstract &&
      (Overload.isVariadic m.params && decide (Overload.fixedArity m.params ≤ argc))) = true ↔
        m.TakesMore name argc := by
  simp only [Method.isAbstract, Bool.and_eq_true, beq_iff_eq, Bool.not_eq_true',
    Option.isNone_eq_false_iff, decide_eq_true_eq]
  constructor
  · rintro ⟨⟨hname, hbody⟩, hvariadic, hcount⟩
    exact ⟨hname, hbody, hvariadic, hcount⟩
  · rintro ⟨hname, hbody, hvariadic, hcount⟩
    exact ⟨⟨hname, hbody⟩, hvariadic, hcount⟩

/-- What is selected among the candidates is told by the places of declarations. -/
theorem select_eq_iff
    (hc : Interface.Coherent {i | c.Reaches i}) (name : String) (argc : Nat) (r : Option Method) :
    Overload.select Method.params (c.usableMethods name) argc = r ↔ c.Selects name argc r := by
  rw [Overload.select, Option.orElse_eq_orElse, Option.orElse_eq_or]
  have hexact := find?_usableMethods_eq_none_iff (takes_iff name argc) hc
  have hvariadic := find?_usableMethods_eq_none_iff (takesMore_iff name argc) hc
  cases r with
  | none =>
      rw [Option.or_eq_none_iff, hexact, hvariadic]
      constructor
      · rintro ⟨hexact, hvariadic⟩
        exact .none hexact hvariadic
      · intro h
        cases h with
        | none hexact hvariadic =>
            exact ⟨hexact, hvariadic⟩
  | some m =>
      rw [Option.or_eq_some_iff, hexact, find?_usableMethods_eq_some_iff (takes_iff name argc) hc,
        find?_usableMethods_eq_some_iff (takesMore_iff name argc) hc]
      constructor
      · rintro (h | ⟨hexact, h⟩)
        · exact .exact h
        · exact .variadic hexact h
      · rintro (h | ⟨hexact, h⟩)
        · exact .inl h
        · exact .inr ⟨hexact, h⟩

/-! ### New overloads -/

/-- A class that differs in one more method, declared by it or by one of its ancestors. -/
inductive Gains (c c' : ClassDef) (m : Method) : Prop
  | intro {nearer further : List ClassLayer} {l l' : ClassLayer} {before after : List Method}
      (hlayers : c.layers = nearer ++ l :: further) (hlayers' : c'.layers = nearer ++ l' :: further)
      (hold : l.methods = before ++ after) (hnew : l'.methods = before ++ m :: after)
      (hinterfaces : l'.interfaces = l.interfaces) : Gains c c' m

theorem Gains.reaches_iff
    (h : c.Gains c' m) {i : Interface} :
    c'.Reaches i ↔ c.Reaches i := by
  obtain ⟨hlayers, hlayers', -, -, hinterfaces⟩ := h
  simp [← mem_interfacesInOrder_iff, interfacesInOrder, hlayers, hlayers', hinterfaces]

theorem Gains.usableMethods_eq
    (h : c.Gains c' m) (name : String) :
    ∃ xs ys, c.usableMethods name = xs ++ ys ∧
      c'.usableMethods name = xs ++ (bodiesNamed [m] name ++ ys) := by
  obtain @⟨nearer, further, l, l', before, after, hlayers, hlayers', hold, hnew, hinterfaces⟩ := h
  have hsame : c'.implementedInterfaces = c.implementedInterfaces :=
    implementedInterfaces_congr (by simp [hlayers, hlayers', hinterfaces])
  have happend (xs ys : List Method) :
      bodiesNamed (xs ++ ys) name = bodiesNamed xs name ++ bodiesNamed ys name := by
    simp [bodiesNamed, methodsNamed]
  refine ⟨nearer.flatMap (fun l => bodiesNamed l.methods name) ++ bodiesNamed before name,
    bodiesNamed after name ++ further.flatMap (fun l => bodiesNamed l.methods name) ++
      c.implementedInterfaces.flatMap (fun i => bodiesNamed i.own.methods name), ?_, ?_⟩
  · simp [usableMethods, hlayers, hold, happend]
  · have hcons : bodiesNamed (m :: after) name = bodiesNamed [m] name ++ bodiesNamed after name :=
      happend [m] after
    simp [usableMethods, hsame, hlayers', hnew, happend, hcons]

/-- A new overload that does not take the number of arguments changes nothing. -/
theorem Gains.select_eq
    (h : c.Gains c' m) (hm : m.isAbstract = true ∨ Overload.accepts m.params argc = false)
    (name : String) :
    Overload.select Method.params (c'.usableMethods name) argc =
      Overload.select Method.params (c.usableMethods name) argc := by
  obtain ⟨xs, ys, hc, hc'⟩ := h.usableMethods_eq name
  rw [hc, hc']
  by_cases hbody : m.name = name ∧ m.isAbstract = false
  · have hone : bodiesNamed [m] name = [m] := by
      simp [bodiesNamed, methodsNamed, hbody]
    rw [hone, List.singleton_append]
    exact Overload.select_insert (hm.resolve_left (by simp [hbody.2]))
  · have hnone : bodiesNamed [m] name = [] := by
      rcases not_and_or.mp hbody with hname | habstract
      · simp [bodiesNamed, methodsNamed, hname]
      · simp [bodiesNamed, methodsNamed, Bool.eq_true_of_not_eq_false habstract]
    rw [hnone, List.nil_append]

/-- Where the same interfaces go by the same number, a name and a number of arguments select an
exact match before a variadic one, the nearest class before the first interface, and the first
method that a class or interface declares.  A call runs what is selected, or it is refused.  An
overload that does not take the number of arguments leaves the selection as it was. -/
theorem selection_coherent
    (hc : Interface.Coherent {i | c.Reaches i}) (name : String) (argc : Nat) :
    (∀ r, Overload.select Method.params (c.usableMethods name) argc = r ↔ c.Selects name argc r) ∧
      (∀ (E : Engine) (o : Instance) (args : List Value) (typeArgs : List TypeExpr) (env : Env)
          (site : Span), o.cls = c → args.length = argc →
        (∀ m, c.Selects name argc (some m) →
          Eval.callMember E (.object o) name args typeArgs env site = (do
            Eval.requireAccess m.visibility name m.owner env
            Eval.runMethod E o m args site)) ∧
        (c.Selects name argc none → c.usableMethods name ≠ [] →
          Eval.callMember E (.object o) name args typeArgs env site =
            Eval.fault (Overload.arityFault Method.params (c.usableMethods name) argc))) ∧
      ∀ c' m, c.Gains c' m → m.isAbstract = true ∨ Overload.accepts m.params argc = false →
        ∀ r, c'.Selects name argc r ↔ c.Selects name argc r := by
  refine ⟨select_eq_iff hc name argc, ?_, ?_⟩
  · rintro E o args typeArgs env site rfl rfl
    constructor
    · intro m hm
      have hselect := (select_eq_iff hc name args.length (some m)).mpr hm
      have hne : o.cls.usableMethods name ≠ [] := by
        intro hnil
        rw [hnil] at hselect
        cases hselect
      rw [Eval.callMember_of_usable hne, Eval.selectMethod, hselect]
      rfl
    · intro hnone hne
      have hselect := (select_eq_iff hc name args.length none).mpr hnone
      rw [Eval.callMember_of_usable hne, Eval.selectMethod, hselect]
      rfl
  · intro c' m hgains hm r
    have hc' : Interface.Coherent {i | c'.Reaches i} := by
      simpa only [hgains.reaches_iff] using hc
    rw [← select_eq_iff hc, ← select_eq_iff hc', hgains.select_eq hm]

/-! ### A diamond -/

/-- A method that describes what it is given. -/
def describe (owner : String) (params : List Param) (body : Option (List Stmt)) : Method :=
  ⟨"describe", owner, [], params, none, body, .visible, false, []⟩

def oneThing : List Param := [⟨"a", none, false, default⟩]
def manyThings : List Param := [⟨"a", none, true, default⟩]
def twoThings : List Param := [⟨"a", none, false, default⟩, ⟨"b", none, false, default⟩]

def describable : Interface :=
  .mk ⟨0, "Describable", [], false, [], [describe "Describable" oneThing (some [])]⟩ []

def named : Interface := .mk ⟨1, "Named", [], false, [], []⟩ [describable]
def counted : Interface := .mk ⟨2, "Counted", [], false, [], []⟩ [describable]

/-- A class of items, which describe any number of things, and below it one that asks for a
description of one thing anew and may have more of its own. -/
def tagged (more : List (List Param)) : ClassDef :=
  let item : ClassLayer :=
    { (default : ClassLayer) with
      name := "Item"
      interfaces := [named, counted]
      methods := [describe "Item" manyThings (some [])]
      owned := List.forall_mem_singleton.mpr rfl }
  ⟨{ (default : ClassLayer) with
      name := "Tagged"
      methods := describe "Tagged" oneThing none :: more.map (describe "Tagged" · (some []))
      constructors := []
      owned := by
        rw [List.append_nil, List.forall_mem_cons, List.forall_mem_map]
        exact ⟨rfl, fun _ _ => rfl⟩ }, [item]⟩

/-- One thing is described by the interface on both ways, with or without a description of two. -/
theorem selection_coherent_tagged :
    let c := tagged []
    let c' := tagged [twoThings]
    let m := describe "Describable" oneThing (some [])
    let o : Instance := ⟨0, c, [], none⟩
    let E : Engine := ⟨fun _ => Eval.giveUp, 0⟩
    Interface.Coherent {i | c.Reaches i} ∧ c.Selects "describe" 1 (some m) ∧
      c'.Selects "describe" 1 (some m) ∧
      Eval.callMember E (.object o) "describe" [.int 5] [] [] default = (do
        Eval.requireAccess .visible "describe" "Describable" []
        Eval.runMethod E o m [.int 5] default) := by
  intro c c' m o E
  have hreached (i : Interface) (hi : c.Reaches i) : i ∈ [named, describable, counted] := by
    have hlist : c.interfacesInOrder = [named, describable, counted, describable] := rfl
    rw [← mem_interfacesInOrder_iff, hlist] at hi
    simp only [List.mem_cons] at hi ⊢
    tauto
  have hc : Interface.Coherent {i | c.Reaches i} := by
    intro i hi j hj hid
    have hids : ([named, describable, counted].map (·.own.id)).Nodup := by decide
    exact List.inj_on_of_nodup_map hids (hreached i hi) (hreached j hj) hid
  obtain ⟨hselects, hcalls, hgains⟩ := selection_coherent hc "describe" 1
  have hm : c.Selects "describe" 1 (some m) := (hselects _).mp rfl
  have hnew : c.Gains c' (describe "Tagged" twoThings (some [])) :=
    @Gains.intro c c' _ [] c.ancestors c.own c'.own [describe "Tagged" oneThing none] [] rfl rfl rfl
      rfl rfl
  refine ⟨hc, hm, (hgains c' _ hnew (.inr rfl) _).mpr hm, ?_⟩
  exact (hcalls E o [.int 5] [] [] default rfl rfl).1 m hm

end ClassDef
end ScriptEngine
