import ScriptEngine.Proofs.Evaluation.Checks

/-!
# Bounds of type parameters

A class whose type parameter has a bound is made only with type arguments within it.  The arguments of
an instance are those that were given, or those found from the values it is made of; they are looked
over once, before the first field is filled.

* What is made is an instance of the class, with arguments within the bounds.
* Arguments outside of them end in the fault of a bound: nothing is made, and no code has run.

Parameters and arguments are taken pair by pair.  So a variadic parameter answers for the first of its
arguments only, and an ancestor for none.
-/

namespace ScriptEngine

namespace Heap

variable {h : Heap} {ps : List TypeParam} {as : List TypeExpr}

/-- An argument that a bound admits. -/
def Bounds (h : Heap) (b a : TypeExpr) : Prop :=
  a.isAny = true ∨ Typing.isSubtype h.registry a b = true

/-- Each argument is within the bound of the parameter in its place. -/
def WithinBounds (h : Heap) (ps : List TypeParam) (as : List TypeExpr) : Prop :=
  ∀ p a, (p, a) ∈ ps.zip as → ∀ b, p.bound = some b → h.Bounds b a

theorem withinBounds_cons
    {p : TypeParam} {a : TypeExpr} :
    h.WithinBounds (p :: ps) (a :: as) ↔
      (∀ b, p.bound = some b → h.Bounds b a) ∧ h.WithinBounds ps as := by
  constructor
  · intro hall
    exact ⟨hall p a List.mem_cons_self, fun q b hmem => hall q b (List.mem_cons_of_mem _ hmem)⟩
  · rintro ⟨hhead, hrest⟩ q b hmem
    obtain heq | hmem := List.mem_cons.mp hmem
    · cases heq
      exact hhead
    · exact hrest q b hmem

/-- There is a fault of a bound just if some argument is outside of its bound. -/
theorem boundFault?_eq_none_iff :
    h.boundFault? ps as = none ↔ h.WithinBounds ps as := by
  induction ps generalizing as with
  | nil =>
      simp [boundFault?, WithinBounds]
  | cons p ps ih =>
      cases as with
      | nil =>
          simp [boundFault?, WithinBounds]
      | cons a as =>
          rw [boundFault?, withinBounds_cons]
          cases hbound : p.bound with
          | none =>
              simp [ih]
          | some b =>
              dsimp only
              split
              · next hadmits =>
                  have hb : h.Bounds b a := by simpa [Bounds] using hadmits
                  simp [hb, ih]
              · next hrefuses =>
                  have hb : ¬ h.Bounds b a := by simpa [Bounds] using hrefuses
                  simp [hb]

/-- The fault of a bound tells an argument and the bound that it is outside of. -/
theorem exists_of_boundFault?
    {c : Cause} (hfault : h.boundFault? ps as = some c) :
    ∃ p a b, (p, a) ∈ ps.zip as ∧ p.bound = some b ∧ ¬ h.Bounds b a ∧
      c = .bound a.render b.render := by
  induction ps generalizing as with
  | nil =>
      cases hfault
  | cons p ps ih =>
      cases as with
      | nil =>
          cases hfault
      | cons a as =>
          have hlater (hrest : h.boundFault? ps as = some c) :
              ∃ q a' b, (q, a') ∈ (p :: ps).zip (a :: as) ∧ q.bound = some b ∧ ¬ h.Bounds b a' ∧
                c = .bound a'.render b.render := by
            obtain ⟨q, a', b, hmem, hq⟩ := ih hrest
            exact ⟨q, a', b, List.mem_cons_of_mem _ hmem, hq⟩
          rw [boundFault?] at hfault
          split at hfault
          · next b hbound =>
              split at hfault
              · exact hlater hfault
              · next hrefuses =>
                  cases hfault
                  refine ⟨p, a, b, List.mem_cons_self, hbound, ?_, rfl⟩
                  simpa [Bounds] using hrefuses
          · exact hlater hfault

end Heap

/-- A value that an evaluation ends with, if it is resumed on certain heaps. -/
def Res.Gives {α : Type} (a : α) : Res α → Prop
  | .value b _ => b = a
  | .raise _ _ => False
  | .blocked _ _ resume => ∃ h, (resume h).Gives a
  | .outOfFuel => False

theorem Res.Gives.of_bind
    {α β : Type} {b : β} {r : Res α} {f : α → Heap → Res β} (hgives : (r.bind f).Gives b) :
    ∃ a h, (f a h).Gives b := by
  induction r with
  | value a h =>
      exact ⟨a, h, hgives⟩
  | raise s h =>
      cases hgives
  | blocked _ _ resume ih =>
      obtain ⟨h, hresumed⟩ := hgives
      exact ih h hresumed
  | outOfFuel =>
      cases hgives

namespace Eval

variable {E : Engine} {c : ClassDef} {given : List TypeExpr} {args : List Value} {site : Span}
variable {ctx : Context} {h : Heap}

/-! ### The parts of a construction -/

/-- The type arguments and the constructor of a value that is to be made. -/
def prepare (c : ClassDef) (given : List TypeExpr) (args : List Value) :
    Eval (List TypeExpr × Option Method) :=
  match c.kind with
  | .enumeration => fault (.type s!"cannot instantiate enum {c.name}")
  | .record => do
    if args.length ≠ c.own.components.length then
      fault (.arityOf c.own.components.length args.length)
    let typeArgs ← instanceTypeArgs c given c.own.components args
    pure (typeArgs, none)
  | .cls => do
    if c.own.isAbstract then fault (.abstractClass c.name)
    let constructor ← selectConstructor c.name c.effectiveConstructors args.length
    let typeArgs ← instanceTypeArgs c given ((constructor.map (·.params)).getD []) args
    pure (typeArgs, constructor)

/-- Makes a record of its components. -/
def makeOfComponents (c : ClassDef) (typeArgs : List TypeExpr) (args : List Value) : Eval Value := do
  let bs := pairParams c.own.typeParams typeArgs
  let fields ← checkComponents c bs ∅ c.own.components args
  let o ← change fun h => h.newRecord c typeArgs fields
  pure (.object o)

/-- Makes an object and has it constructed. -/
def makeObject (E : Engine) (c : ClassDef) (typeArgs : List TypeExpr) (constructor : Option Method)
    (args : List Value) (site : Span) : Eval Value := do
  let o ← change fun h => h.newObject c typeArgs none
  construct E o constructor args site
  pure (.object o)

/-- Makes a value of a class with type arguments. -/
def makeWith (E : Engine) (c : ClassDef) (typeArgs : List TypeExpr) (constructor : Option Method)
    (args : List Value) (site : Span) : Eval Value :=
  if c.kind = .record then makeOfComponents c typeArgs args
  else makeObject E c typeArgs constructor args site

/-- A construction looks over the type arguments between its two parts. -/
theorem newInstance_eq :
    newInstance E c given args site = (do
      let p ← prepare c given args
      unlessFault ((← heap).boundFault? c.own.typeParams p.1)
      makeWith E c p.1 p.2 args site) := by
  cases hkind : c.kind with
  | enumeration =>
      simp only [newInstance, prepare, hkind]
      rfl
  | record =>
      simp only [newInstance, prepare, makeWith, makeOfComponents, makeRecord, hkind, if_true]
      split
      · rfl
      · simp
  | cls =>
      simp only [newInstance, prepare, makeWith, makeObject, makeInstance, hkind, reduceCtorEq, if_false]
      split
      · rfl
      · simp

namespace Inquires

theorem selectConstructor
    (cls : String) (table : List Method) (argc : Nat) :
    Inquires (Eval.selectConstructor cls table argc) := by
  unfold Eval.selectConstructor
  split
  · split
    · exact .pure _
    · exact .fault _
  · split
    · exact .pure _
    · exact .fault _

theorem instanceTypeArgs
    (c : ClassDef) (given : List TypeExpr) (ps : List Param) (args : List Value) :
    Inquires (Eval.instanceTypeArgs c given ps args) := by
  unfold Eval.instanceTypeArgs
  dsimp only
  split
  · split
    · split
      · exact .pure _
      · exact .fault _
    · split
      · exact .pure _
      · exact .fault _
  · split
    · exact .pure _
    · exact .bind .heap fun _ => .pure _

theorem prepare
    (c : ClassDef) (given : List TypeExpr) (args : List Value) :
    Inquires (Eval.prepare c given args) := by
  unfold Eval.prepare
  split
  · exact .fault _
  · dsimp only
    split
    · exact .bind (.fault _) fun _ => .bind (.instanceTypeArgs _ _ _ _) fun _ => .pure _
    · exact .bind (.instanceTypeArgs _ _ _ _) fun _ => .pure _
  · dsimp only
    split
    · exact .bind (.fault _) fun _ => .bind (.selectConstructor _ _ _) fun _ =>
        .bind (.instanceTypeArgs _ _ _ _) fun _ => .pure _
    · exact .bind (.selectConstructor _ _ _) fun _ => .bind (.instanceTypeArgs _ _ _ _) fun _ => .pure _

end Inquires

/-- What is made is an instance of the class with the type arguments. -/
theorem makeWith_gives
    {typeArgs : List TypeExpr} {constructor : Option Method} {v : Value}
    (hgives : (makeWith E c typeArgs constructor args site ctx h).Gives v) :
    ∃ o : Instance, v = .object o ∧ o.cls = c ∧ o.typeArgs = typeArgs := by
  unfold makeWith at hgives
  split at hgives
  · rw [makeOfComponents, bind_apply] at hgives
    obtain ⟨_, _, hrest⟩ := hgives.of_bind
    cases hrest
    exact ⟨_, rfl, rfl, rfl⟩
  · rw [makeObject, bind_apply, change_apply, Res.bind, bind_apply] at hgives
    obtain ⟨_, _, hrest⟩ := hgives.of_bind
    cases hrest
    exact ⟨_, rfl, rfl, rfl⟩

/-- What is made of a class is an instance of it, with type arguments within the bounds.  Type
arguments outside of them are refused for one of them, before anything is made. -/
theorem newInstance_bounded :
    (∀ v, (newInstance E c given args site ctx h).Gives v →
      ∃ (o : Instance) (m : Option Method), v = .object o ∧ o.cls = c ∧
        prepare c given args ctx h = .value (o.typeArgs, m) h ∧
        h.WithinBounds c.own.typeParams o.typeArgs) ∧
    (∀ typeArgs m, prepare c given args ctx h = .value (typeArgs, m) h →
      ¬ h.WithinBounds c.own.typeParams typeArgs →
      ∃ p a b, (p, a) ∈ c.own.typeParams.zip typeArgs ∧ p.bound = some b ∧ ¬ h.Bounds b a ∧
        newInstance E c given args site ctx h =
          (fault (.bound a.render b.render) : Eval Value) ctx h) := by
  have hparts {p : List TypeExpr × Option Method} (hp : prepare c given args ctx h = .value p h) :
      newInstance E c given args site ctx h =
        (verdict (h.boundFault? c.own.typeParams p.1) h).bind fun _ h =>
          makeWith E c p.1 p.2 args site ctx h := by
    rw [newInstance_eq, bind_apply, hp, ← unlessFault_apply _ ctx, ← bind_apply]
    rfl
  constructor
  · intro v hgives
    obtain ⟨p, hp⟩ | ⟨cause, hfault⟩ := Inquires.prepare c given args ctx h
    · rw [hparts hp, verdict_bind] at hgives
      cases hbound : h.boundFault? c.own.typeParams p.1 with
      | none =>
          rw [hbound] at hgives
          obtain ⟨o, rfl, hcls, hargs⟩ := makeWith_gives hgives
          refine ⟨o, p.2, rfl, hcls, ?_, ?_⟩
          · rw [hargs, hp]
          · rw [hargs]
            exact Heap.boundFault?_eq_none_iff.mp hbound
      | some cause =>
          rw [hbound] at hgives
          cases hgives
    · rw [newInstance_eq, bind_apply, hfault] at hgives
      cases hgives
  · intro typeArgs m hp houtside
    cases hbound : h.boundFault? c.own.typeParams typeArgs with
    | none =>
        exact absurd (Heap.boundFault?_eq_none_iff.mp hbound) houtside
    | some cause =>
        obtain ⟨p, a, b, hmem, hb, hnot, rfl⟩ := Heap.exists_of_boundFault? hbound
        refine ⟨p, a, b, hmem, hb, hnot, ?_⟩
        rw [hparts hp, verdict_bind, hbound]
        rfl

/-- A class with a variadic parameter that is to be numbers. -/
def numbersClass : ClassDef :=
  let numbers : TypeParam :=
    { name := "T", bound := some (.simple "Number"), variance := .invariant, variadic := true }
  let own : ClassLayer :=
    { (default : ClassLayer) with
      name := "Numbers"
      kind := .cls
      typeParams := [numbers]
      owned := nofun }
  ⟨own, []⟩

/-- A first argument that is no number is refused; a second one is not looked at. -/
theorem newInstance_bounded_numbers :
    let E : Engine := ⟨fun _ => giveUp, 0⟩
    let ctx : Context := .ofLimit 1
    newInstance E numbersClass [.simple "String"] [] default ctx Heap.empty =
        (fault (.bound "String" "Number") : Eval Value) ctx Heap.empty ∧
      (newInstance E numbersClass [.simple "Int", .simple "String"] [] default ctx Heap.empty).Gives
        (.object ⟨0, numbersClass, [.simple "Int", .simple "String"], none⟩) := by
  intro E ctx
  have hname : canonicalName "String" = "String" ∧ canonicalName "Int" = "Int" ∧
      canonicalName "Number" = "Number" := by
    decide +kernel
  have hstring : (TypeExpr.simple "String").canonical = .simple "String" := by
    simp [TypeExpr.simple, TypeExpr.canonical, TypeExpr.canonicalList, hname]
  have hint : (TypeExpr.simple "Int").canonical = .simple "Int" := by
    simp [TypeExpr.simple, TypeExpr.canonical, TypeExpr.canonicalList, hname]
  have hprepare {as : List TypeExpr} (has : as ≠ []) :
      prepare numbersClass as [] ctx Heap.empty =
        .value (as.map TypeExpr.canonical, none) Heap.empty := by
    simp [prepare, numbersClass, instanceTypeArgs, selectConstructor, ClassDef.kind, has]
    rfl
  have hrefused : ¬ Heap.empty.Bounds (.simple "Number") (.simple "String") := by
    simp [Heap.Bounds, Typing.isSubtype, TypeExpr.simple, TypeExpr.isAny, hname, Typing.sameHead,
      Registry.isSubtype]
    rfl
  have hadmitted : Heap.empty.Bounds (.simple "Number") (.simple "Int") := by
    simp [Heap.Bounds, Typing.isSubtype, TypeExpr.simple, TypeExpr.isAny, hname, Typing.sameHead]
  have hwithin :
      Heap.empty.WithinBounds numbersClass.own.typeParams [.simple "Int", .simple "String"] := by
    rw [numbersClass, Heap.withinBounds_cons]
    refine ⟨fun b hb => ?_, fun p a hmem => ?_⟩
    · cases hb
      exact hadmitted
    · cases hmem
  constructor
  · have hargs := hprepare (List.cons_ne_nil (.simple "String") [])
    rw [List.map_singleton, hstring] at hargs
    have houtside :
        ¬ Heap.empty.WithinBounds numbersClass.own.typeParams [.simple "String"] := by
      intro hwithin
      exact hrefused (hwithin _ _ List.mem_cons_self _ rfl)
    obtain ⟨p, a, b, hmem, hb, -, hfault⟩ := newInstance_bounded.2 _ _ hargs houtside
    cases List.mem_singleton.mp hmem
    cases hb
    have hrender : (TypeExpr.simple "String").render = "String" ∧
        (TypeExpr.simple "Number").render = "Number" := by
      decide +kernel
    rwa [hrender.1, hrender.2] at hfault
  · have hargs := hprepare (List.cons_ne_nil (.simple "Int") [.simple "String"])
    rw [List.map_cons, List.map_singleton, hint, hstring] at hargs
    rw [newInstance_eq, bind_apply, hargs, Res.bind, bind_apply, heap]
    dsimp only [Res.bind]
    rw [bind_apply, unlessFault_apply, Heap.boundFault?_eq_none_iff.mpr hwithin]
    rfl

end Eval
end ScriptEngine
