import Mathlib
import ScriptEngine.Proofs.Typing.Objects

/-!
# Types compared with themselves

There are two comparisons of types.  `isSubtype` asks whether a type can stand where another is
required, `argFits` whether a type argument meets the one that is asked for.

**Shapes.**  Both go by the shape of the types: a union on the left by all of its members, one on the
right by any of them, a wildcard by its bound.  A lower bound turns the sides around.

**Reflexivity.**  A type that bounds a wildcard is compared with the wildcard itself.  If it is a
union, it is taken apart before the wildcard is, and then one member has to stand above all others,
or, for a lower bound, each above each.  Where that is so at every bound, types fit themselves
(`fits_itself`); for unions of names it is so just if the wildcard fits itself.
-/

namespace ScriptEngine

namespace TypeExpr

def isUnion : TypeExpr → Bool
  | union _ => true
  | _ => false

/-- Whether a type is a name or the wildcard without a bound. -/
def isPlain : TypeExpr → Bool
  | named _ _ | wildcard => true
  | _ => false

variable {ms : List TypeExpr} {b : TypeExpr}

@[simp] theorem isAny_union : (union ms).isAny = false := rfl
@[simp] theorem isAny_wildcard : wildcard.isAny = false := rfl
@[simp] theorem isAny_boundedAbove : (boundedAbove b).isAny = false := rfl
@[simp] theorem isAny_boundedBelow : (boundedBelow b).isAny = false := rfl

theorem union_ne_boundedBelow
    (b : TypeExpr) :
    union ms ≠ boundedBelow b := by
  simp

theorem isUnion_of_isPlain
    {t : TypeExpr} (ht : t.isPlain = true) :
    t.isUnion = false := by
  cases t with
  | union ms =>
      cases ht
  | _ =>
      rfl

end TypeExpr

namespace Typing

variable {reg : Registry} {a b e m r t : TypeExpr} {as es ms us : List TypeExpr} {k n : String}

/-! ### Subtypes, by shape -/

theorem allSubtypes_iff :
    allSubtypes reg ms e = true ↔ ∀ m ∈ ms, isSubtype reg m e = true := by
  induction ms with
  | nil =>
      simp [allSubtypes]
  | cons m ms ih =>
      simp [allSubtypes, ih]

theorem anySubtype_iff :
    anySubtype reg a ms = true ↔ ∃ m ∈ ms, isSubtype reg a m = true := by
  induction ms with
  | nil =>
      simp [anySubtype]
  | cons m ms ih =>
      simp [anySubtype, ih]

theorem isSubtype_of_isAny_left
    (ha : a.isAny = true) :
    isSubtype reg a e = true := by
  rw [isSubtype.eq_def, ha, Bool.true_or, if_pos rfl]

theorem isSubtype_of_isAny_right
    (he : e.isAny = true) :
    isSubtype reg a e = true := by
  rw [isSubtype.eq_def, he, Bool.or_true, if_pos rfl]

theorem isSubtype_union_left_iff :
    isSubtype reg (.union ms) e = true ↔ ∀ m ∈ ms, isSubtype reg m e = true := by
  cases he : e.isAny with
  | true =>
      simp [isSubtype_of_isAny_right he]
  | false =>
      rw [← allSubtypes_iff, isSubtype.eq_def, he]
      rfl

theorem isSubtype_union_right_iff
    (ha : a.isUnion = false) (hany : a.isAny = false) :
    isSubtype reg a (.union ms) = true ↔ ∃ m ∈ ms, isSubtype reg a m = true := by
  rw [← anySubtype_iff, isSubtype.eq_def, hany]
  cases a with
  | union us =>
      cases ha
  | _ =>
      rfl

/-- What can stand for a member of a union can stand for the union. -/
theorem isSubtype_union_right
    (hmem : m ∈ ms) :
    (a : TypeExpr) → isSubtype reg a m = true → isSubtype reg a (.union ms) = true
  | .union us, h => by
      rw [isSubtype_union_left_iff] at h ⊢
      exact fun u hu => isSubtype_union_right hmem u (h u hu)
  | .named k as, h => by
      cases hany : (TypeExpr.named k as).isAny with
      | true =>
          exact isSubtype_of_isAny_left hany
      | false =>
          exact (isSubtype_union_right_iff rfl hany).mpr ⟨m, hmem, h⟩
  | .wildcard, h | .boundedAbove _, h | .boundedBelow _, h => by
      exact (isSubtype_union_right_iff rfl rfl).mpr ⟨m, hmem, h⟩

theorem isSubtype_wildcard :
    (a : TypeExpr) → isSubtype reg a .wildcard = true
  | .union us => isSubtype_union_left_iff.mpr fun u _ => isSubtype_wildcard u
  | .named _ _ | .wildcard | .boundedAbove _ | .boundedBelow _ => by
      rw [isSubtype.eq_def]
      split
      · rfl
      · rfl

theorem isSubtype_boundedAbove_iff
    (b : TypeExpr) :
    (a : TypeExpr) → (isSubtype reg a (.boundedAbove b) = true ↔ isSubtype reg a b = true)
  | .union us => by
      rw [isSubtype_union_left_iff, isSubtype_union_left_iff]
      exact forall₂_congr fun u _ => isSubtype_boundedAbove_iff b u
  | .named k as => by
      cases hany : (TypeExpr.named k as).isAny with
      | true =>
          simp [isSubtype_of_isAny_left hany]
      | false =>
          rw [isSubtype.eq_def, hany]
          rfl
  | .wildcard | .boundedAbove _ | .boundedBelow _ => by
      rw [isSubtype.eq_def]
      rfl

theorem isSubtype_boundedBelow_iff
    (ha : a.isUnion = false) :
    isSubtype reg a (.boundedBelow b) = true ↔ isSubtype reg b a = true := by
  cases hany : a.isAny with
  | true =>
      simp [isSubtype_of_isAny_left hany, isSubtype_of_isAny_right hany]
  | false =>
      rw [isSubtype.eq_def, hany]
      cases a with
      | union us =>
          cases ha
      | _ =>
          rfl

/-- A wildcard stands for a plain type where its upper bound does. -/
theorem isSubtype_boundedAbove_left_iff
    (he : e.isPlain = true) :
    isSubtype reg (.boundedAbove a) e = true ↔ isSubtype reg a e = true := by
  cases e with
  | named n es =>
      cases hany : (TypeExpr.named n es).isAny with
      | true =>
          simp [isSubtype_of_isAny_right hany]
      | false =>
          rw [isSubtype.eq_def, hany]
          rfl
  | wildcard =>
      simp [isSubtype_wildcard]
  | _ =>
      cases he

/-- Whatever its upper bound stands for a wildcard stands for, if the bound is no union. -/
theorem isSubtype_boundedAbove_left
    (ha : a.isUnion = false) (hany : a.isAny = false) :
    (e : TypeExpr) → isSubtype reg a e = true → isSubtype reg (.boundedAbove a) e = true
  | .named n es, h => (isSubtype_boundedAbove_left_iff rfl).mpr h
  | .wildcard, _ => isSubtype_wildcard _
  | .union ms, h => by
      obtain ⟨m, hmem, hm⟩ := (isSubtype_union_right_iff ha hany).mp h
      exact isSubtype_union_right hmem _ (isSubtype_boundedAbove_left ha hany m hm)
  | .boundedAbove b, h => by
      rw [isSubtype_boundedAbove_iff] at h ⊢
      exact isSubtype_boundedAbove_left ha hany b h
  | .boundedBelow b, h => by
      rw [isSubtype_boundedBelow_iff ha] at h
      rw [isSubtype_boundedBelow_iff rfl, isSubtype_boundedAbove_iff]
      exact h

/-- Wildcards without an upper bound stand for no name but that of everything. -/
theorem isSubtype_unbounded_left
    (ha : a = .wildcard ∨ ∃ b, a = .boundedBelow b) :
    isSubtype reg a (.named n es) = (TypeExpr.named n es).isAny := by
  cases hany : (TypeExpr.named n es).isAny with
  | true =>
      exact isSubtype_of_isAny_right hany
  | false =>
      rcases ha with rfl | ⟨b, rfl⟩
      · rw [isSubtype.eq_def, hany]
        rfl
      · rw [isSubtype.eq_def, hany]
        rfl

theorem isSubtype_named_iff
    (hk : (TypeExpr.named k as).isAny = false) (hn : (TypeExpr.named n es).isAny = false) :
    isSubtype reg (.named k as) (.named n es) = true ↔
      (sameHead (canonicalName k) (canonicalName n) = true ∨
        reg.isSubtype (canonicalName k) (canonicalName n) = true) ∧
      (as = [] ∨ es = [] ∨ argsMatch reg as es = true) := by
  rw [isSubtype.eq_def, hk, hn]
  simp [or_assoc]

/-! ### Type arguments, by shape -/

theorem allMatch_iff :
    allMatch reg ms r = true ↔ ∀ m ∈ ms, argFits reg m r = true := by
  induction ms with
  | nil =>
      simp [allMatch]
  | cons m ms ih =>
      simp [allMatch, ih]

theorem anyMatch_iff :
    anyMatch reg a ms = true ↔ ∃ m ∈ ms, argFits reg a m = true := by
  induction ms with
  | nil =>
      simp [anyMatch]
  | cons m ms ih =>
      simp [anyMatch, ih]

theorem argFits_of_isAny_left
    (ha : a.isAny = true) :
    argFits reg a r = true := by
  rw [argFits.eq_def, ha, Bool.true_or, if_pos rfl]

theorem argFits_of_isAny_right
    (hr : r.isAny = true) :
    argFits reg a r = true := by
  rw [argFits.eq_def, hr, Bool.or_true, if_pos rfl]

theorem argFits_wildcard :
    argFits reg a .wildcard = true := by
  rw [argFits.eq_def]
  split
  · rfl
  · rfl

theorem argFits_boundedAbove :
    argFits reg a (.boundedAbove b) = isSubtype reg a b := by
  cases hany : a.isAny with
  | true =>
      rw [argFits_of_isAny_left hany, isSubtype_of_isAny_left hany]
  | false =>
      rw [argFits.eq_def, hany]
      cases a <;> rfl

theorem argFits_boundedBelow :
    argFits reg a (.boundedBelow b) = isSubtype reg b a := by
  cases hany : a.isAny with
  | true =>
      rw [argFits_of_isAny_left hany, isSubtype_of_isAny_right hany]
  | false =>
      rw [argFits.eq_def, hany]
      cases a <;> rfl

/-- A union meets what each of its members meets, but for a lower bound. -/
theorem argFits_union_left_iff
    (hr : ∀ b, r ≠ .boundedBelow b) :
    argFits reg (.union ms) r = true ↔ ∀ m ∈ ms, argFits reg m r = true := by
  cases hany : r.isAny with
  | true =>
      simp [argFits_of_isAny_right hany]
  | false =>
      cases r with
      | named n es =>
          rw [← allMatch_iff, argFits.eq_def, hany]
          rfl
      | union rs =>
          rw [← allMatch_iff, argFits.eq_def]
          rfl
      | wildcard =>
          simp [argFits_wildcard]
      | boundedAbove b =>
          simp only [argFits_boundedAbove, isSubtype_union_left_iff]
      | boundedBelow b =>
          exact absurd rfl (hr b)

theorem argFits_union_right_iff
    (ha : a.isUnion = false) (hany : a.isAny = false) :
    argFits reg a (.union ms) = true ↔ ∃ m ∈ ms, argFits reg a m = true := by
  rw [← anyMatch_iff, argFits.eq_def, hany]
  cases a with
  | union us =>
      cases ha
  | _ =>
      rfl

/-- What meets a member of a union meets the union; a union that is above a lower bound need not. -/
theorem argFits_union_right
    (hmem : r ∈ ms) :
    (a : TypeExpr) → (a.isUnion = true → ∀ b, r ≠ .boundedBelow b) → argFits reg a r = true →
      argFits reg a (.union ms) = true
  | .union us, hr, h => by
      rw [argFits_union_left_iff (hr rfl)] at h
      refine (argFits_union_left_iff TypeExpr.union_ne_boundedBelow).mpr fun u hu => ?_
      exact argFits_union_right hmem u (fun _ => hr rfl) (h u hu)
  | .named k as, _, h => by
      cases hany : (TypeExpr.named k as).isAny with
      | true =>
          exact argFits_of_isAny_left hany
      | false =>
          exact (argFits_union_right_iff rfl hany).mpr ⟨r, hmem, h⟩
  | .wildcard, _, h | .boundedAbove _, _, h | .boundedBelow _, _, h => by
      exact (argFits_union_right_iff rfl rfl).mpr ⟨r, hmem, h⟩

/-- Wildcards meet no name but that of everything. -/
theorem argFits_unnamed_left
    (ha : a.isUnion = false) (hname : a.headName? = none) :
    argFits reg a (.named n es) = (TypeExpr.named n es).isAny := by
  cases hany : (TypeExpr.named n es).isAny with
  | true =>
      exact argFits_of_isAny_right hany
  | false =>
      cases a with
      | named k as =>
          cases hname
      | union us =>
          cases ha
      | _ =>
          rw [argFits.eq_def, hany]
          rfl

theorem argFits_named_iff
    (hk : (TypeExpr.named k as).isAny = false) (hn : (TypeExpr.named n es).isAny = false) :
    argFits reg (.named k as) (.named n es) = true ↔
      sameHead (canonicalName k) (canonicalName n) = true ∧
      (as = [] ∨ es = [] ∨ argsMatch reg as es = true) := by
  rw [argFits.eq_def, hk, hn]
  simp [or_assoc]

theorem argsMatch_self
    (has : ∀ a ∈ as, argFits reg a a = true) :
    argsMatch reg as as = true := by
  induction as with
  | nil =>
      rw [argsMatch]
  | cons a as ih =>
      rw [List.forall_mem_cons] at has
      rw [argsMatch, has.1, ih has.2]
      rfl

/-! ### Types that fit themselves -/

/-- A type can stand for itself, and meets itself as a type argument. -/
structure FitsItself (reg : Registry) (t : TypeExpr) : Prop where
  isSubtype : isSubtype reg t t = true
  argFits : argFits reg t t = true

/-- One member of a union stands above all of them. -/
def HasTop (reg : Registry) (ms : List TypeExpr) : Prop :=
  ∃ m ∈ ms, m.isPlain = true ∧ ∀ m' ∈ ms, isSubtype reg m' m = true

/-- Each member of a union stands above all of them. -/
def AreLevel (reg : Registry) (ms : List TypeExpr) : Prop :=
  ∀ m ∈ ms, m.isUnion = false ∧ ∀ m' ∈ ms, isSubtype reg m' m = true

/-- A union that bounds a wildcard from above has a top, and one that does from below is level. -/
inductive Settled (reg : Registry) : TypeExpr → Prop
  | named {n : String} {as : List TypeExpr} (hargs : ∀ a ∈ as, Settled reg a) :
      Settled reg (.named n as)
  | union {ms : List TypeExpr} (hmembers : ∀ m ∈ ms, Settled reg m) :
      Settled reg (.union ms)
  | wildcard :
      Settled reg .wildcard
  | boundedAbove {b : TypeExpr} (hbound : Settled reg b)
      (htop : ∀ ms, b = .union ms → HasTop reg ms) :
      Settled reg (.boundedAbove b)
  | boundedBelow {b : TypeExpr} (hbound : Settled reg b)
      (hlevel : ∀ ms, b = .union ms → AreLevel reg ms) :
      Settled reg (.boundedBelow b)

/-- To fit itself a wildcard must stand for its upper bound. -/
theorem fitsItself_boundedAbove_iff :
    FitsItself reg (.boundedAbove b) ↔ isSubtype reg (.boundedAbove b) b = true := by
  constructor
  · exact fun h => (isSubtype_boundedAbove_iff b _).mp h.isSubtype
  · exact fun h => ⟨(isSubtype_boundedAbove_iff b _).mpr h, argFits_boundedAbove.trans h⟩

/-- To fit itself a wildcard must stand above its lower bound. -/
theorem fitsItself_boundedBelow_iff :
    FitsItself reg (.boundedBelow b) ↔ isSubtype reg b (.boundedBelow b) = true := by
  constructor
  · exact fun h => (isSubtype_boundedBelow_iff rfl).mp h.isSubtype
  · exact fun h => ⟨(isSubtype_boundedBelow_iff rfl).mpr h, argFits_boundedBelow.trans h⟩

theorem HasTop.stands
    (htop : HasTop reg ms) :
    isSubtype reg (.boundedAbove (.union ms)) (.union ms) = true := by
  obtain ⟨m, hmem, hplain, habove⟩ := htop
  refine isSubtype_union_right hmem _ ?_
  exact (isSubtype_boundedAbove_left_iff hplain).mpr (isSubtype_union_left_iff.mpr habove)

theorem AreLevel.stands
    (hlevel : AreLevel reg ms) :
    isSubtype reg (.union ms) (.boundedBelow (.union ms)) = true := by
  refine isSubtype_union_left_iff.mpr fun m hm => ?_
  obtain ⟨hunion, habove⟩ := hlevel m hm
  exact (isSubtype_boundedBelow_iff hunion).mpr (isSubtype_union_left_iff.mpr habove)

/-- For a union of plain types nothing less will do. -/
theorem fitsItself_boundedAbove_union_iff
    (hplain : ∀ m ∈ ms, m.isPlain = true) :
    FitsItself reg (.boundedAbove (.union ms)) ↔ HasTop reg ms := by
  rw [fitsItself_boundedAbove_iff]
  refine ⟨fun h => ?_, HasTop.stands⟩
  obtain ⟨m, hmem, hm⟩ := (isSubtype_union_right_iff rfl rfl).mp h
  rw [isSubtype_boundedAbove_left_iff (hplain m hmem)] at hm
  exact ⟨m, hmem, hplain m hmem, isSubtype_union_left_iff.mp hm⟩

theorem fitsItself_boundedBelow_union_iff
    (hplain : ∀ m ∈ ms, m.isPlain = true) :
    FitsItself reg (.boundedBelow (.union ms)) ↔ AreLevel reg ms := by
  rw [fitsItself_boundedBelow_iff]
  refine ⟨fun h m hmem => ?_, AreLevel.stands⟩
  have hunion := TypeExpr.isUnion_of_isPlain (hplain m hmem)
  have hm := isSubtype_union_left_iff.mp h m hmem
  rw [isSubtype_boundedBelow_iff hunion] at hm
  exact ⟨hunion, isSubtype_union_left_iff.mp hm⟩

/-- Settled types fit themselves. -/
theorem Settled.fitsItself
    (ht : Settled reg t) :
    FitsItself reg t := by
  induction ht with
  | @named n as _ ih =>
      have hargs : argsMatch reg as as = true := argsMatch_self fun a ha => (ih a ha).argFits
      cases hany : (TypeExpr.named n as).isAny with
      | true =>
          exact ⟨isSubtype_of_isAny_left hany, argFits_of_isAny_left hany⟩
      | false =>
          have hhead : sameHead (canonicalName n) (canonicalName n) = true := by
            simp [sameHead]
          constructor
          · exact (isSubtype_named_iff hany hany).mpr ⟨.inl hhead, .inr (.inr hargs)⟩
          · exact (argFits_named_iff hany hany).mpr ⟨hhead, .inr (.inr hargs)⟩
  | @union ms _ ih =>
      constructor
      · refine isSubtype_union_left_iff.mpr fun m hm => ?_
        exact isSubtype_union_right hm m (ih m hm).isSubtype
      · refine (argFits_union_left_iff TypeExpr.union_ne_boundedBelow).mpr fun m hm => ?_
        refine argFits_union_right hm m (fun hunion b hb => ?_) (ih m hm).argFits
        rw [hb] at hunion
        cases hunion
  | wildcard =>
      exact ⟨isSubtype_wildcard _, argFits_wildcard⟩
  | @boundedAbove b _ htop ih =>
      rw [fitsItself_boundedAbove_iff]
      cases hunion : b.isUnion with
      | true =>
          cases b with
          | union ms =>
              exact (htop ms rfl).stands
          | _ =>
              cases hunion
      | false =>
          cases hany : b.isAny with
          | true =>
              exact isSubtype_of_isAny_right hany
          | false =>
              exact isSubtype_boundedAbove_left hunion hany b ih.isSubtype
  | @boundedBelow b _ hlevel ih =>
      rw [fitsItself_boundedBelow_iff]
      cases hunion : b.isUnion with
      | true =>
          cases b with
          | union ms =>
              exact (hlevel ms rfl).stands
          | _ =>
              cases hunion
      | false =>
          exact (isSubtype_boundedBelow_iff hunion).mpr ih.isSubtype

/-- An instance is of its class with the type arguments that it was given, if these meet
themselves. -/
theorem instanceOf_own
    {h : Heap} {o : Instance} (hname : canonicalName o.cls.name = o.cls.name)
    (hargs : argsMatch h.registry o.typeArgs o.typeArgs = true) :
    h.instanceOf (.object o) (.named o.cls.name o.typeArgs) = true := by
  have hhead : Heap.headFits (.object o) o.cls.name = true := by
    simp [Heap.headFits, ClassDef.isA, ClassDef.layers, ClassDef.layerIs, ClassDef.name]
  have hseen : Heap.argsSeenAs (.object o) o.cls.name =
      if areAllAny o.typeArgs then none else some o.typeArgs := by
    rw [Heap.argsSeenAs]
    cases o.cls.ancestors with
    | nil | cons =>
        cases hany : areAllAny o.typeArgs <;> simp [ClassLayer.argsAlong, ClassDef.name, hany]
  rw [Heap.instanceOf, Heap.namedInstance, hname, hhead, hseen]
  cases areAllAny o.typeArgs with
  | true =>
      simp [Heap.elementsByArg]
  | false =>
      simp [hargs]

/-- Types fit themselves where every union that bounds a wildcard from above has a top and every one
that does from below is level; so an instance is of its class with such type arguments.  A wildcard
with a union of plain types fits itself in no other case. -/
theorem fits_itself
    (h : Heap) :
    (∀ t, Settled h.registry t → FitsItself h.registry t) ∧
    (∀ o : Instance, canonicalName o.cls.name = o.cls.name →
      (∀ a ∈ o.typeArgs, Settled h.registry a) →
        h.instanceOf (.object o) (.named o.cls.name o.typeArgs) = true) ∧
    ∀ ms, (∀ m ∈ ms, m.isPlain = true) →
      (FitsItself h.registry (.boundedAbove (.union ms)) ↔ HasTop h.registry ms) ∧
        (FitsItself h.registry (.boundedBelow (.union ms)) ↔ AreLevel h.registry ms) := by
  refine ⟨fun t ht => ht.fitsItself, fun o hname hargs => ?_, fun ms hplain => ⟨?_, ?_⟩⟩
  · exact instanceOf_own hname (argsMatch_self fun a ha => (hargs a ha).fitsItself.argFits)
  · exact fitsItself_boundedAbove_union_iff hplain
  · exact fitsItself_boundedBelow_union_iff hplain

/-- Among names that no program has declared only those of numbers stand for another. -/
theorem isSubtype_empty_iff
    (hk : canonicalName k = k ∧ k ≠ "Any") (hn : canonicalName n = n ∧ n ≠ "Any") :
    isSubtype ∅ (.simple k) (.simple n) = true ↔ sameHead k n = true := by
  have hany {m : String} (hm : canonicalName m = m ∧ m ≠ "Any") :
      (TypeExpr.named m []).isAny = false := by
    simpa [TypeExpr.isAny, hm.1] using hm.2
  rw [TypeExpr.simple, TypeExpr.simple, isSubtype_named_iff (hany hk) (hany hn), hk.1, hn.1]
  have hfind : (∅ : Registry).find? k = none := rfl
  simp only [true_or, and_true, Registry.isSubtype, hfind, Bool.or_false, beq_iff_eq]
  refine or_iff_left_of_imp ?_
  rintro rfl
  simp [sameHead]

/-- Numbers stand above integers; of integers and strings neither stands above the other. -/
theorem fits_itself_numbers :
    let numbers : TypeExpr := .boundedAbove (.union [.simple "Int", .simple "Number"])
    let either : TypeExpr := .boundedAbove (.union [.simple "Int", .simple "String"])
    FitsItself ∅ (.named "Map" [numbers, .boundedBelow (.simple "Int")]) ∧ ¬ FitsItself ∅ either := by
  obtain ⟨hsettled, -, hunions⟩ := fits_itself Heap.empty
  have hint : canonicalName "Int" = "Int" ∧ "Int" ≠ "Any" := by decide +kernel
  have hnumber : canonicalName "Number" = "Number" ∧ "Number" ≠ "Any" := by decide +kernel
  have hstring : canonicalName "String" = "String" ∧ "String" ≠ "Any" := by decide +kernel
  have hsimple (n : String) : Settled ∅ (.simple n) := .named nofun
  intro numbers either
  constructor
  · have htop : HasTop ∅ [.simple "Int", .simple "Number"] := by
      refine ⟨.simple "Number", by simp, rfl, fun m hm => ?_⟩
      rcases List.mem_pair.mp hm with rfl | rfl
      · exact (isSubtype_empty_iff hint hnumber).mpr (by decide)
      · exact (isSubtype_empty_iff hnumber hnumber).mpr (by decide)
    have hnumbers : Settled ∅ numbers := by
      refine .boundedAbove (.union fun m hm => ?_) (by rintro ms ⟨⟩; exact htop)
      rcases List.mem_pair.mp hm with rfl | rfl
      · exact hsimple _
      · exact hsimple _
    refine hsettled _ (.named fun a ha => ?_)
    rcases List.mem_pair.mp ha with rfl | rfl
    · exact hnumbers
    · exact .boundedBelow (hsimple _) nofun
  · have hplain : ∀ m ∈ [TypeExpr.simple "Int", .simple "String"], m.isPlain = true := by
      simp [TypeExpr.simple, TypeExpr.isPlain]
    intro hfits
    obtain ⟨m, hm, -, habove⟩ := (hunions _ hplain).1.mp hfits
    rw [List.forall_mem_cons, List.forall_mem_singleton] at habove
    rcases List.mem_pair.mp hm with rfl | rfl
    · exact absurd ((isSubtype_empty_iff hstring hint).mp habove.2) (by decide)
    · exact absurd ((isSubtype_empty_iff hint hstring).mp habove.1) (by decide)

end Typing
end ScriptEngine
