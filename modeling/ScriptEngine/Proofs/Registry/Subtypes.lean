import ScriptEngine.Proofs.Resets.Session
import ScriptEngine.Proofs.Stores.Session
import ScriptEngine.Proofs.Typing.Nominal

/-!
# The order of declared types

`Registry.isSubtype` looks up the lower of two names and follows what that type inherited when it was
declared; the higher one is only a name.

**Inheritance.** `TypeDef.Inherits` is an order of the types themselves: what a type inherits is a part
of it.  A name may stand for one type in what another one inherits, and for another type now.

**Names.** If no name has been declared twice, all types that a program holds anywhere are told apart by
their names.  Then subtyping of names is inheritance of what they stand for, and so an order
(`Fits.ordersSubtypes`).

**Sessions.** The names are counted from when a session began anew, the names of the prelude included.
That is in a new process, or at a reset that finds no thread waiting: such a thread could go on with the
types of before, and declare their heirs.
-/

namespace ScriptEngine

/-! ### What a type inherits -/

namespace Interface

variable {i j : Interface}

theorem Reaches.eq_or_lt
    (h : i.Reaches j) :
    j = i ∨ sizeOf j < sizeOf i := by
  induction h with
  | refl =>
      exact .inl rfl
  | @step i p j hp _ ih =>
      have hlt : sizeOf p < sizeOf i := by
        obtain ⟨o, ps⟩ := i
        have hmem : sizeOf p < sizeOf ps := List.sizeOf_lt_of_mem hp
        rw [mk.sizeOf_spec]
        omega
      right
      rcases ih with rfl | ih
      · exact hlt
      · exact ih.trans hlt

theorem Reaches.antisymm
    (h : i.Reaches j) (h' : j.Reaches i) :
    i = j := by
  rcases h.eq_or_lt with heq | hlt
  · exact heq.symm
  · rcases h'.eq_or_lt with heq | hlt'
    · exact heq
    · exact absurd hlt' (Nat.lt_asymm hlt)

end Interface

/-- A type inherits itself, a class its ancestors, and every type the interfaces in its reach. -/
inductive TypeDef.Inherits : TypeDef → TypeDef → Prop
  | ancestor {c d : ClassDef} : d ∈ c.lineage → Inherits (.cls c) (.cls d)
  | interface {t : TypeDef} {j : Interface} : t.Reaches j → Inherits t (.interface j)

namespace TypeDef

variable {t u v : TypeDef}

theorem Inherits.refl
    (t : TypeDef) :
    t.Inherits t := by
  cases t with
  | cls c =>
      exact .ancestor List.mem_cons_self
  | interface i =>
      exact .interface (.refl i)

theorem Inherits.trans
    (h : t.Inherits u) (h' : u.Inherits v) :
    t.Inherits v := by
  cases h with
  | @ancestor c d hd =>
      have hsuffix : d.layers <:+ c.layers := ClassDef.mem_fromLayers_iff.mp hd
      cases h' with
      | ancestor he =>
          exact .ancestor (ClassDef.mem_fromLayers_iff.mpr
            ((ClassDef.mem_fromLayers_iff.mp he).trans hsuffix))
      | interface hj =>
          obtain ⟨l, hl, hreaches⟩ := hj
          exact .interface ⟨l, hsuffix.subset hl, hreaches⟩
  | @interface t i hi =>
      cases h' with
      | interface hj =>
          refine .interface ?_
          cases t with
          | cls c =>
              obtain ⟨l, hl, k, hk, hki⟩ := hi
              exact ⟨l, hl, k, hk, hki.trans hj⟩
          | interface k =>
              exact Interface.Reaches.trans hi hj

theorem Inherits.antisymm
    (h : t.Inherits u) (h' : u.Inherits t) :
    t = u := by
  cases h with
  | @ancestor c d hd =>
      cases h' with
      | ancestor hc =>
          have hdown : d.layers <:+ c.layers := ClassDef.mem_fromLayers_iff.mp hd
          have hup : c.layers <:+ d.layers := ClassDef.mem_fromLayers_iff.mp hc
          have hlayers := hup.eq_of_length_le hdown.length_le
          rw [ClassDef.layers, ClassDef.layers, List.cons.injEq] at hlayers
          cases c
          cases d
          rw [cls.injEq, ClassDef.mk.injEq]
          exact hlayers
  | interface hj =>
      cases h' with
      | interface hi =>
          exact congrArg TypeDef.interface (Interface.Reaches.antisymm hj hi)

/-- What a class inherits are its ancestors and the interfaces in its reach. -/
theorem exists_inherits_iff
    (c : ClassDef) (name : String) :
    (∃ u, (cls c).Inherits u ∧ u.name = name) ↔
      (∃ d ∈ c.lineage, d.name = name) ∨ ∃ j, c.Reaches j ∧ j.name = name := by
  constructor
  · rintro ⟨u, hu, hname⟩
    cases hu with
    | ancestor hd =>
        exact .inl ⟨_, hd, hname⟩
    | interface hj =>
        exact .inr ⟨_, hj, hname⟩
  · rintro (⟨d, hd, hname⟩ | ⟨j, hj, hname⟩)
    · exact ⟨_, .ancestor hd, hname⟩
    · exact ⟨_, .interface hj, hname⟩

end TypeDef

theorem ClassDef.goesBy_iff
    (c : ClassDef) (name : String) :
    c.GoesBy name ↔ ∃ u, (TypeDef.cls c).Inherits u ∧ u.name = name := by
  rw [TypeDef.exists_inherits_iff]
  exact or_congr_left (exists_mem_lineage_iff (P := fun l => l.name = name)).symm

/-! ### Subtypes by name -/

namespace Registry

variable {r : Registry}

theorem isSubtype_iff
    (r : Registry) (a b : String) :
    r.isSubtype a b = true ↔
      a = b ∨ ∃ t, r.find? a = some t ∧ ∃ u, t.Inherits u ∧ u.name = b := by
  rw [isSubtype, Bool.or_eq_true, beq_iff_eq]
  refine or_congr_right ?_
  cases r.find? a with
  | none =>
      simp
  | some t =>
      cases t with
      | cls c =>
          simp only [Option.some.injEq, exists_eq_left', ← ClassDef.goesBy_iff, ClassDef.isA_iff]
      | interface i =>
          simp only [Option.some.injEq, exists_eq_left', Interface.extendsName_iff]
          constructor
          · rintro ⟨j, hj, hname⟩
            exact ⟨_, .interface hj, hname⟩
          · rintro ⟨u, hu, hname⟩
            cases hu with
            | interface hj =>
                exact ⟨_, hj, hname⟩

/-- A registered type, or one that it inherits. -/
def Holds (r : Registry) (u : TypeDef) : Prop :=
  ∃ name t, r.find? name = some t ∧ t.Inherits u

/-- Subtyping orders names, and it is what was inherited: of a registered type a registered one is a
supertype just if it was inherited itself, and of a class just what the class, its ancestors and the
interfaces in its reach are called. -/
structure OrdersSubtypes (r : Registry) : Prop where
  refl : ∀ a, r.isSubtype a a = true
  trans : ∀ a b c, r.isSubtype a b = true → r.isSubtype b c = true → r.isSubtype a c = true
  antisymm : ∀ a b, r.contains a = true → r.contains b = true →
    r.isSubtype a b = true → r.isSubtype b a = true → a = b
  inherited : ∀ a b t u, r.find? a = some t → r.find? b = some u →
    (r.isSubtype a b = true ↔ t.Inherits u)
  ofClass : ∀ a c, r.cls? a = some c → ∀ b, r.isSubtype a b = true ↔
    (∃ d ∈ c.lineage, d.name = b) ∨ ∃ j, c.Reaches j ∧ j.name = b

/-- Types that are told apart by their names are ordered. -/
theorem ordersSubtypes_of_apart
    (hnames : ∀ name t, r.find? name = some t → t.name = name)
    (hapart : ∀ t u, r.Holds t → r.Holds u → t.name = u.name → t = u) :
    r.OrdersSubtypes := by
  have hself {a : String} {t : TypeDef} (ht : r.find? a = some t) : r.Holds t :=
    ⟨a, t, ht, .refl t⟩
  have hinherited {a b : String} {t u : TypeDef} (ht : r.find? a = some t)
      (hu : r.find? b = some u) : r.isSubtype a b = true ↔ t.Inherits u := by
    rw [isSubtype_iff]
    constructor
    · rintro (rfl | ⟨t', ht', v, hv, hname⟩)
      · rw [ht] at hu
        cases hu
        exact .refl t
      · rw [ht] at ht'
        cases ht'
        have hsame : v = u := hapart v u ⟨a, t, ht, hv⟩ (hself hu) (hname.trans (hnames b u hu).symm)
        exact hsame ▸ hv
    · intro h
      exact .inr ⟨t, ht, u, h, hnames b u hu⟩
  refine ⟨fun a => ?_, fun a b c hab hbc => ?_, fun a b ha hb hab hba => ?_,
    fun a b t u ht hu => hinherited ht hu, fun a c hc b => ?_⟩
  · rw [isSubtype_iff]
    exact .inl rfl
  · rcases (isSubtype_iff r b c).mp hbc with rfl | ⟨u, hu, v, hv, hname⟩
    · exact hab
    · rcases (isSubtype_iff r a b).mp hab with rfl | ⟨t, ht, -⟩
      · exact hbc
      · have htu := (hinherited ht hu).mp hab
        exact (isSubtype_iff r a c).mpr (.inr ⟨t, ht, v, htu.trans hv, hname⟩)
  · obtain ⟨t, ht⟩ := contains_iff.mp ha
    obtain ⟨u, hu⟩ := contains_iff.mp hb
    have hsame := ((hinherited ht hu).mp hab).antisymm ((hinherited hu ht).mp hba)
    rw [← hnames a t ht, hsame, hnames b u hu]
  · have hfind : r.find? a = some (.cls c) := find?_of_cls? hc
    rw [isSubtype_iff, ← TypeDef.exists_inherits_iff]
    constructor
    · rintro (rfl | ⟨t, ht, hinherits⟩)
      · exact ⟨_, .refl _, hnames a _ hfind⟩
      · rw [hfind] at ht
        cases ht
        exact hinherits
    · intro h
      exact .inr ⟨_, hfind, h⟩

end Registry

/-! ### Declarations of a world -/

section Fitting

variable {w : World} {h : Heap} {t u : TypeDef}

/-- With a type all that it inherits is known. -/
theorem Fits.knows_inherited
    (hf : Fits w h) (ht : Knows w t) (hu : t.Inherits u) :
    u.fact ∈ w := by
  cases hu with
  | ancestor hd =>
      exact hf.classes.up (knows_class.mp ht).1 _ hd
  | interface hj =>
      exact ht.reaches _ hj

/-- As long as no name has been declared twice, subtyping orders the registered types. -/
theorem Fits.ordersSubtypes
    (hf : Fits w h) (hdeclared : h.declared.Nodup) :
    h.registry.OrdersSubtypes := by
  have hknown {u : TypeDef} (hu : h.registry.Holds u) : u.fact ∈ w := by
    obtain ⟨name, t, ht, hinherits⟩ := hu
    have hregistry : Knows w h.registry := (knows_heap.mp hf.known).2.2.2.2.2.2.2.2.2.1
    exact hf.knows_inherited (hregistry.registered ht) hinherits
  exact Registry.ordersSubtypes_of_apart (fun name t ht => (hf.registry.types ht).1)
    fun t u ht hu => hf.names.eq hdeclared (hknown ht) (hknown hu)

end Fitting

/-! ### What is declared in a session -/

theorem Heap.Blank.emptyIn
    (n : Counters) (output : String) :
    Heap.Blank { Heap.emptyIn n with output := output } := by
  constructor <;> simp +contextual [Heap.emptyIn]

/-- The names that have been declared after the first ones. -/
def Heap.declaredSince (h : Heap) (n : Nat) : List String :=
  h.declared.take (h.declared.length - n)

namespace Session

/-- A session that begins anew when so many names have been declared: in a new process, or by a reset
when no thread is left that could bring in what was before. -/
inductive Anew : Session → Nat → Prop
  | start (prelude : Except SourceError Program) (limit : Nat) : Anew (startWith prelude limit) 0
  | reset {s : Session} : s.waiting = [] → s.heap.jobs = [] → Anew s.reset s.heap.declared.length

/-- A heap between two programs, or at a moment of a run. -/
inductive Moment (s : Session) : Heap → Prop
  | between : Moment s s.heap
  | within {p : Program} {r : Res Value} {ws : List Waiting} {h : Heap} :
      Eval.Reaches s.limit (s.begin p) s.waiting r ws → r.heap? = some h → Moment s h

variable {s s' : Session} {t : Epoch} {h : Heap}

theorem Stocked.fits
    (hs : s.Stocked) (hh : s.Moment h) :
    ∃ w, Fits w h := by
  cases hh with
  | between =>
      obtain ⟨ks, lost, -, w, hagree, -⟩ := hs
      exact ⟨w, hagree.fits⟩
  | @within p r ws h hreach hheap =>
      exact ((hs.begin p).reaches hreach).fits hheap

/-- Sessions in step come to the same moments. -/
theorem Alike.moment
    (hs : Alike t s s') (hh : s.Moment h) :
    s'.Moment (h.forget t) := by
  cases hh with
  | between =>
      rw [← hs.heap]
      exact .between
  | @within p r ws h hreach hheap =>
      have hfirst := runIn_oblivious hs.recent p.statements (.ofLimit s.limit) s.heap hs.renewed
      obtain ⟨r', ws', hreach', hr, -⟩ := hfirst.reaches hs.waiting hreach
      rw [← hs.heap, ← hs.limit, ← hs.env] at hreach'
      exact .within hreach' (hr.heap? hheap)

/-- Sessions with which the same is done stay in step. -/
theorem Alike.performs
    (hs : Alike t s s') (actions : List Action) :
    Alike t (actions.foldl perform s) (actions.foldl perform s') := by
  induction actions generalizing s s' with
  | nil =>
      exact hs
  | cons a actions ih =>
      refine ih ?_
      cases a with
      | program p =>
          exact (hs.runProgram p).2.2
      | reset =>
          exact hs.reset
      | takeOutput =>
          exact hs.takeOutput.2

/-- What has been declared in a session that began anew fits a world of its own. -/
theorem Anew.fits
    {n : Nat} (hs : s.Anew n) (actions : List Action) (hh : (actions.foldl perform s).Moment h) :
    ∃ w h', Fits w h' ∧ h'.registry = h.registry ∧ h'.declared = h.declaredSince n := by
  cases hs with
  | start prelude limit =>
      obtain ⟨w, hfits⟩ := ((Stocked.startWith prelude limit).performs actions).fits hh
      refine ⟨w, h, hfits, rfl, ?_⟩
      rw [Heap.declaredSince, Nat.sub_zero, List.take_length]
  | @reset s hwaiting hjobs =>
      -- in step with the session goes one in whose process nothing exists yet
      have halike := (alike_reset hwaiting hjobs).performs actions
      have hstocked := Stocked.of_blank (Program.read preludeSource) s.limit
        (.emptyIn s.counters s.heap.output)
      obtain ⟨w, hfits⟩ := (hstocked.performs actions).fits (halike.moment hh)
      exact ⟨w, h.forget s.heap.now, hfits, rfl, rfl⟩

/-- Whatever is done with a session that began anew, subtyping orders the registered types at every
moment at which no name has been declared twice in it, the names of the prelude included. -/
theorem declared_types_ordered
    {n : Nat} (hs : s.Anew n) (actions : List Action) (hh : (actions.foldl perform s).Moment h)
    (hdeclared : (h.declaredSince n).Nodup) :
    h.registry.OrdersSubtypes := by
  obtain ⟨w, h', hfits, hregistry, hnames⟩ := hs.fits actions hh
  rw [← hregistry]
  exact hfits.ordersSubtypes (hnames ▸ hdeclared)

/-- A class without members. -/
def emptyClass (name : String) (parent : Option TypeExpr) (interfaces : List TypeExpr) : Stmt :=
  .classDecl
    { name := name, typeParams := [], parent := parent, interfaces := interfaces, isSealed := false
      isAbstract := false, permits := [], fields := [], methods := [], constructors := []
      span := default }

/-- A prelude with an interface and a class that implements it. -/
def letters : Program :=
  ⟨[.interfaceDecl
      { name := "I", typeParams := [], parents := [], isSealed := false, permits := [], methods := []
        fields := [], span := default },
    emptyClass "A" none [.simple "I"]], default⟩

/-- A session with this prelude, whose program declares a class that extends the other one. -/
def lettered : Session :=
  [Action.program ⟨[emptyClass "B" (some (.simple "A")) []], default⟩].foldl perform
    (startWith (.ok letters) 8)

/-- All three types have names of their own.  The class that the program declares is a subtype of the
interface, by way of the class of the prelude. -/
theorem lettered_ordered :
    lettered.heap.declaredSince 0 = ["B", "A", "I"] ∧ lettered.heap.registry.OrdersSubtypes ∧
      lettered.heap.registry.isSubtype "B" "I" = true := by
  have hnames : lettered.heap.declaredSince 0 = ["B", "A", "I"] := by decide +kernel
  have hdeclared : (lettered.heap.declaredSince 0).Nodup := by
    rw [hnames]
    decide
  have hordered : lettered.heap.registry.OrdersSubtypes := by
    unfold lettered at hdeclared ⊢
    exact declared_types_ordered (.start _ 8) _ .between hdeclared
  refine ⟨hnames, hordered, hordered.trans "B" "A" "I" ?_ ?_⟩ <;> decide +kernel

end Session
end ScriptEngine
