import ScriptEngine.Eval.Expression
import ScriptEngine.Eval.Statement
import ScriptEngine.Proofs.Evaluation.Checks
import ScriptEngine.Proofs.Registry.Reach

/-!
# Types by name

A class goes by its own name, by those of its ancestors, and by those of the interfaces in its reach.
A program asks in four places whether an object is of a type: with `instanceof`, in a clause of a try,
in a case with a type, and where an argument meets a parameter.

All four ask for the canonical spelling of the name that is written, while a class goes by the name it
is declared under.  So they follow inheritance for the names that are canonical and have no meaning of
their own, and for no others (`followsInheritance_iff`): a class that is declared under another spelling
of a builtin name has objects that are not instances of it.
-/

namespace ScriptEngine

/-! ### What a class goes by -/

mutual

theorem Interface.extendsName_iff
    (name : String) : (i : Interface) → (i.extendsName name = true ↔ ∃ j, i.Reaches j ∧ j.name = name)
  | .mk o ps => by
      rw [extendsName, Bool.or_eq_true, beq_iff_eq, anyExtends_iff name ps]
      constructor
      · rintro (hown | ⟨p, hp, j, hj, hname⟩)
        · exact ⟨_, .refl _, hown⟩
        · exact ⟨j, .step hp hj, hname⟩
      · rintro ⟨j, hj, hname⟩
        cases hj with
        | refl =>
            exact .inl hname
        | step hp hj =>
            exact .inr ⟨_, hp, j, hj, hname⟩

theorem Interface.anyExtends_iff
    (name : String) :
    (is : List Interface) →
      (anyExtends name is = true ↔ ∃ i ∈ is, ∃ j, i.Reaches j ∧ j.name = name)
  | [] => by
      simp [anyExtends]
  | i :: rest => by
      rw [anyExtends, Bool.or_eq_true, extendsName_iff name i, anyExtends_iff name rest]
      simp

end

/-- A declaration of a class without members. -/
def ClassLayer.plain (name : String) (interfaces : List Interface) : ClassLayer :=
  { (default : ClassLayer) with
    name := name
    interfaces := interfaces
    owned := fun _ hm => absurd hm List.not_mem_nil }

namespace ClassDef

/-- A class goes by its own name, and by those of its ancestors and of the interfaces in reach. -/
def GoesBy (c : ClassDef) (name : String) : Prop :=
  (∃ l ∈ c.layers, l.name = name) ∨ ∃ i, c.Reaches i ∧ i.name = name

theorem isA_iff
    (c : ClassDef) (name : String) :
    c.isA name = true ↔ c.GoesBy name := by
  simp only [isA, layerIs, GoesBy, Reaches, List.any_eq_true, Bool.or_eq_true, beq_iff_eq,
    Interface.extendsName_iff]
  constructor
  · rintro ⟨l, hl, hname | ⟨i, hi, j, hj, hname⟩⟩
    · exact .inl ⟨l, hl, hname⟩
    · exact .inr ⟨j, ⟨l, hl, i, hi, hj⟩, hname⟩
  · rintro (⟨l, hl, hname⟩ | ⟨j, ⟨l, hl, i, hi, hj⟩, hname⟩)
    · exact ⟨l, hl, .inl hname⟩
    · exact ⟨l, hl, .inr ⟨i, hi, j, hj, hname⟩⟩

/-- A class that extends nothing and implements nothing goes by its own name. -/
theorem goesBy_plain
    {l : ClassLayer} (hplain : l.interfaces = []) (name : String) :
    GoesBy ⟨l, []⟩ name ↔ l.name = name := by
  simp [GoesBy, Reaches, layers, hplain]

end ClassDef

/-! ### Canonical names -/

/-- A canonical name is written as it is, or it is one of the builtin spellings. -/
theorem canonicalName_cases
    (name : String) :
    canonicalName name = name ∨ canonicalName name ∈ typeAliases.map (·.2) := by
  rw [canonicalName]
  cases hfound : typeAliases.lookup name.toLower with
  | none =>
      exact .inl rfl
  | some c =>
      obtain ⟨before, after, hsplit, -⟩ := List.lookup_eq_some_iff.mp hfound
      refine .inr (List.mem_map.mpr ⟨(name.toLower, c), ?_, rfl⟩)
      simp [hsplit]

/-- Writing a name canonically once is enough. -/
theorem canonicalName_idem
    (name : String) :
    canonicalName (canonicalName name) = canonicalName name := by
  have hbuiltin : ∀ c ∈ typeAliases.map (·.2), canonicalName c = c := by decide +kernel
  rcases canonicalName_cases name with hsame | halias
  · rw [hsame]
    exact hsame
  · exact hbuiltin _ halias

namespace Heap

variable {h : Heap} {o : Instance} {name : String}

/-- A declared name, in its canonical spelling, is that of a type. -/
theorem isKnownType_canonicalName
    (hdeclared : h.registry.contains name = true) :
    h.isKnownType (canonicalName name) = true := by
  have hbuiltin : ∀ c ∈ typeAliases.map (·.2), builtinTypes.contains c = true := by decide +kernel
  rw [isKnownType, Bool.or_eq_true]
  rcases canonicalName_cases name with hsame | halias
  · rw [hsame]
    exact .inr hdeclared
  · exact .inl (hbuiltin _ halias)

/-- An object is an instance of a plain name by its class, or because everything is. -/
theorem instanceOf_simple_iff :
    h.instanceOf (.object o) (.simple name) = true ↔
      canonicalName name = "Any" ∨ o.cls.GoesBy (canonicalName name) := by
  rw [TypeExpr.simple, instanceOf, namedInstance, headFits, List.isEmpty_nil, Bool.true_or,
    Bool.and_true, Bool.or_eq_true, beq_iff_eq, ClassDef.isA_iff]

/-- An object may be stored under a declared name as it is an instance of it; but nothing of a class is
stored under the names for nothing and for fractions. -/
theorem conforms_simple_iff
    {bs : Bindings} (hdeclared : h.registry.contains name = true) (hfree : bs.get? name = none) :
    h.conforms (.object o) (.simple name) bs = true ↔
      canonicalName name = "Any" ∨
        canonicalName name ∉ ["Void", "Float"] ∧ o.cls.GoesBy (canonicalName name) := by
  have hsimple : h.instanceOf (.object o) (.simple name) = true ↔
      canonicalName name = "Any" ∨ o.cls.GoesBy (canonicalName name) := instanceOf_simple_iff
  simp only [TypeExpr.simple] at hsimple ⊢
  simp only [conforms, Value.isNil, TypeExpr.substitute, hfree, Option.getD_none, fits,
    isKnownType_canonicalName hdeclared, plainConforms, beq_iff_eq, Bool.not_true, Bool.false_or,
    Bool.false_eq_true, if_false, List.isEmpty_nil, if_true, List.mem_cons, List.not_mem_nil, or_false,
    not_or]
  by_cases hany : canonicalName name = "Any"
  · simp [hany]
  by_cases hvoid : canonicalName name = "Void"
  · simp [hvoid]
  by_cases hfloat : canonicalName name = "Float"
  · simp [hfloat]
  simp [hany, hvoid, hfloat, hsimple]

end Heap

/-! ### The four tests -/

namespace Eval

/-- Checks the arguments of a variadic parameter. -/
def checkAll (i : Invocation) (p : Param) (vs : List Value) (t : TypeExpr) : Eval Unit :=
  vs.forM fun v => check v t i.bindings s!"argument '{p.name}' of {i.name}"

/-- The four tests of a program take an object for a plain name just if something is so. -/
structure Tests (E : Engine) (h : Heap) (o : Instance) (name : String) (taken : Prop) : Prop where
  operator : ∀ e span env ctx h₀, E.eval e env ctx h₀ = .value (.object o) h →
    ∃ b, evalExpr E (.instanceOf e (.simple name) span) env ctx h₀ = .value (.bool b) h ∧
      (b = true ↔ taken)
  clause : ∀ c : CatchClause Stmt, c.type = some (.simple name) →
    (c.takes (h.instanceOf (.object o)) = true ↔ taken)
  case : ∀ binder env scope ctx,
    ∃ b h', casePasses E (.type binder (.simple name)) (.object o) env scope ctx h = .value b h' ∧
      (b = true ↔ taken)
  parameter : ∀ i p ctx, p.variadic = false → i.bindings.get? name = none →
    ∃ fault?, requireArgument i p (.object o) (.simple name) ctx h = verdict fault? h ∧
      (fault? = none ↔ taken)
  /-- The arguments of a variadic parameter are tested one after the other. -/
  variadic : ∀ i p ctx id before after, p.variadic = true → i.bindings.get? name = none →
    (h.array id).toList = before ++ .object o :: after →
    (∀ v ∈ before, h.conforms v (.simple name) i.bindings = true) →
    ∃ fault?, requireArgument i p (.array id) (.simple name) ctx h =
        (verdict fault? h).bind (fun _ => checkAll i p after (.simple name) ctx) ∧
      (fault? = none ↔ taken)

variable {E : Engine} {h : Heap} {o : Instance} {name : String} {taken : Prop}

theorem instanceOf_apply
    {e : Expr} {span : Span} {env : Env} {ctx : Context} {h₀ : Heap} {v : Value} {t : TypeExpr}
    (hvalue : E.eval e env ctx h₀ = .value v h) :
    evalExpr E (.instanceOf e t span) env ctx h₀ = .value (.bool (h.instanceOf v t.canonical)) h := by
  rw [evalExpr, bind_apply, hvalue]
  rfl

theorem casePasses_type_apply
    (E : Engine) (h : Heap) (binder : String) (t : TypeExpr) (v : Value) (env scope : Env)
    (ctx : Context) :
    ∃ h', casePasses E (.type binder t) v env scope ctx h =
      .value (h.instanceOf v t.canonical) h' := by
  rw [casePasses, heap_bind_apply]
  cases h.instanceOf v t.canonical with
  | false =>
      exact ⟨_, rfl⟩
  | true =>
      exact ⟨_, rfl⟩

theorem requireArgument_object_apply
    {i : Invocation} {p : Param} {t : TypeExpr} {ctx : Context} (hplain : p.variadic = false) :
    requireArgument i p (.object o) t ctx h =
      verdict (h.checkFault? (.object o) t i.bindings s!"argument '{p.name}' of {i.name}") h := by
  simp only [requireArgument, hplain]
  exact check_apply _ _ _ _ _ _

theorem checkFault?_eq_none_iff
    {v : Value} {t : TypeExpr} {bs : Bindings} {what : String} :
    h.checkFault? v t bs what = none ↔ h.conforms v t bs = true := by
  rw [Heap.checkFault?]
  cases h.conforms v t bs with
  | false =>
      simp
  | true =>
      simp

theorem verdict_eq_value_iff
    {fault? : Option Cause} :
    verdict fault? h = .value () h ↔ fault? = none := by
  cases fault? with
  | none =>
      simp [verdict]
  | some cause =>
      simp [verdict]

theorem checkAll_cons_apply
    {i : Invocation} {p : Param} {v : Value} {vs : List Value} {t : TypeExpr} {ctx : Context} :
    checkAll i p (v :: vs) t ctx h =
      (verdict (h.checkFault? v t i.bindings s!"argument '{p.name}' of {i.name}") h).bind
        fun _ => checkAll i p vs t ctx := by
  show (check _ _ _ _ >>= fun _ => checkAll i p vs t) ctx h = _
  rw [bind_apply, check_apply]

/-- Checks that pass are passed over. -/
theorem checkAll_append_apply
    {i : Invocation} {p : Param} {before after : List Value} {t : TypeExpr} {ctx : Context}
    (hpass : ∀ v ∈ before, h.conforms v t i.bindings = true) :
    checkAll i p (before ++ after) t ctx h = checkAll i p after t ctx h := by
  induction before with
  | nil =>
      rfl
  | cons v vs ih =>
      rw [List.forall_mem_cons] at hpass
      rw [List.cons_append, checkAll_cons_apply, checkFault?_eq_none_iff.mpr hpass.1]
      exact ih hpass.2

theorem requireArgument_array_apply
    {i : Invocation} {p : Param} {id : Nat} {before after : List Value} {v : Value} {t : TypeExpr}
    {ctx : Context} (hvariadic : p.variadic = true)
    (helements : (h.array id).toList = before ++ v :: after)
    (hpass : ∀ v ∈ before, h.conforms v t i.bindings = true) :
    requireArgument i p (.array id) t ctx h =
      (verdict (h.checkFault? v t i.bindings s!"argument '{p.name}' of {i.name}") h).bind
        fun _ => checkAll i p after t ctx := by
  simp only [requireArgument, hvariadic]
  rw [heap_bind_apply, helements]
  exact (checkAll_append_apply hpass).trans checkAll_cons_apply

/-- Three of the tests agree in any case; the fourth differs in the names for nothing and for
fractions. -/
theorem tests_iff
    (hdeclared : h.registry.contains name = true) :
    Tests E h o name taken ↔
      (canonicalName name = "Any" ∨ o.cls.GoesBy (canonicalName name) ↔ taken) ∧
        (canonicalName name = "Any" ∨
          canonicalName name ∉ ["Void", "Float"] ∧ o.cls.GoesBy (canonicalName name) ↔ taken) := by
  have hinstance : h.instanceOf (.object o) (.simple (canonicalName name)) = true ↔
      canonicalName name = "Any" ∨ o.cls.GoesBy (canonicalName name) := by
    rw [Heap.instanceOf_simple_iff, canonicalName_idem]
  have hstored {bs : Bindings} (what : String) (hfree : bs.get? name = none) :
      h.checkFault? (.object o) (.simple name) bs what = none ↔
        canonicalName name = "Any" ∨
          canonicalName name ∉ ["Void", "Float"] ∧ o.cls.GoesBy (canonicalName name) :=
    checkFault?_eq_none_iff.trans (Heap.conforms_simple_iff hdeclared hfree)
  rw [← hinstance]
  constructor
  · intro htests
    constructor
    · exact htests.clause ⟨none, some (.simple name), [], default⟩ rfl
    · let i : Invocation := ⟨"", [], none, .block [], [], none, [], []⟩
      obtain ⟨fault?, hresult, htaken⟩ := htests.parameter i default (.ofLimit 0) rfl rfl
      rw [requireArgument_object_apply rfl] at hresult
      rw [← htaken, ← verdict_eq_value_iff, ← hresult, verdict_eq_value_iff, hstored _ rfl]
  · rintro ⟨hnamed, hargument⟩
    constructor
    · intro e span env ctx h₀ hvalue
      exact ⟨_, instanceOf_apply hvalue, hnamed⟩
    · intro c htype
      rw [CatchClause.takes, htype]
      exact hnamed
    · intro binder env scope ctx
      obtain ⟨h', hpasses⟩ := casePasses_type_apply E h binder (.simple name) (.object o) env scope ctx
      exact ⟨_, h', hpasses, hnamed⟩
    · intro i p ctx hplain hfree
      exact ⟨_, requireArgument_object_apply hplain, (hstored _ hfree).trans hargument⟩
    · intro i p ctx id before after hvariadic hfree helements hpass
      exact ⟨_, requireArgument_array_apply hvariadic helements hpass,
        (hstored _ hfree).trans hargument⟩

/-- The tests for a declared name follow inheritance just if the name is canonical and is none of those
for everything, for nothing and for fractions. -/
theorem followsInheritance_iff
    (hdeclared : h.registry.contains name = true) :
    (∀ o, Tests E h o name (o.cls.GoesBy name)) ↔
      canonicalName name = name ∧ name ∉ ["Any", "Void", "Float"] := by
  constructor
  · intro hall
    have hplain (n : String) : ∃ o : Instance, ∀ m, o.cls.GoesBy m ↔ n = m :=
      ⟨⟨0, ⟨ClassLayer.plain n [], []⟩, [], none⟩, fun m => ClassDef.goesBy_plain rfl m⟩
    obtain ⟨other, hother⟩ := hplain (name ++ "s")
    have hany : canonicalName name ≠ "Any" := by
      intro hany
      obtain ⟨hnamed, -⟩ := (tests_iff hdeclared).mp (hall other)
      have hlength := congrArg String.length ((hother name).mp (hnamed.mp (.inl hany)))
      simp at hlength
    obtain ⟨own, hown⟩ := hplain name
    obtain ⟨hnamed, hargument⟩ := (tests_iff hdeclared).mp (hall own)
    simp only [hown, hany, false_or, iff_true] at hnamed hargument
    rw [← hnamed] at hany hargument
    simp only [List.mem_cons, List.not_mem_nil, or_false, not_or] at hargument ⊢
    exact ⟨hnamed.symm, hany, hargument.1⟩
  · rintro ⟨hcanonical, hproper⟩ o
    rw [tests_iff hdeclared, hcanonical]
    simp only [List.mem_cons, List.not_mem_nil, or_false, not_or] at hproper ⊢
    simp [hproper]

/-- An interface, a class whose parent implements it, and a class under a spelling of a builtin name. -/
def namedInterface : Interface := .mk ⟨0, "Named", [], false, [], []⟩ []

def dogClass : ClassDef :=
  ⟨.plain "Dog" [], [.plain "Animal" [namedInterface]]⟩

def strClass : ClassDef := ⟨.plain "Str" [], []⟩

/-- A dog is taken for what is named; what is made of a class `Str` is not always taken for one. -/
theorem followsInheritance_dog :
    let E : Engine := ⟨fun _ => giveUp, 0⟩
    let declared := ((∅ : Registry).put (.interface namedInterface)).put (.cls strClass)
    let h : Heap := { Heap.empty with registry := declared }
    h.registry.contains "Named" = true ∧ h.registry.contains "Str" = true ∧
      dogClass.GoesBy "Named" ∧ Tests E h ⟨0, dogClass, [], none⟩ "Named" (dogClass.GoesBy "Named") ∧
      ¬ ∀ o, Tests E h o "Str" (o.cls.GoesBy "Str") := by
  intro E declared h
  have hnamed : h.registry.contains "Named" = true := by rfl
  have hstr : h.registry.contains "Str" = true := by rfl
  have hcanonical : canonicalName "Named" = "Named" := by decide +kernel
  have hspelling : canonicalName "Str" ≠ "Str" := by decide +kernel
  refine ⟨hnamed, hstr, (dogClass.isA_iff _).mp (by decide +kernel), ?_, ?_⟩
  · exact (followsInheritance_iff hnamed).mpr ⟨hcanonical, by decide⟩ _
  · intro hall
    exact hspelling ((followsInheritance_iff hstr).mp hall).1

end Eval
end ScriptEngine
