import Mathlib
import ScriptEngine.Proofs.Typing.Nominal
import ScriptEngine.Proofs.Typing.Subtyping

/-!
# The spelling of types

Builtin type names may be written in several ways.  Nothing writes a type canonically once and for
all: each comparison of names, each test for the type of everything and each lookup of a declaration
does so anew.

**Invariance.**  A type in canonical spelling is compared, tested and written as the type itself.

**Spelling.**  So two types with the same canonical spelling are told apart by nothing
(`spelling_invisible`).
-/

namespace ScriptEngine

/-! ### Canonical spelling -/

namespace TypeExpr

variable {as ms : List TypeExpr} {t : TypeExpr} {n : String}

theorem canonicalList_eq_map :
    canonicalList as = as.map canonical := by
  induction as with
  | nil =>
      rfl
  | cons a as ih =>
      rw [canonicalList, ih, List.map_cons]

@[simp] theorem canonical_named :
    (named n as).canonical = named (canonicalName n) (as.map canonical) := by
  rw [canonical, canonicalList_eq_map]

@[simp] theorem canonical_union :
    (union ms).canonical = union (ms.map canonical) := by
  rw [canonical, canonicalList_eq_map]

@[simp] theorem canonical_wildcard : wildcard.canonical = wildcard := rfl

@[simp] theorem canonical_boundedAbove : (boundedAbove t).canonical = boundedAbove t.canonical := rfl

@[simp] theorem canonical_boundedBelow : (boundedBelow t).canonical = boundedBelow t.canonical := rfl

/-- Writing a type canonically once is enough. -/
theorem canonical_idem
    (t : TypeExpr) :
    t.canonical.canonical = t.canonical := by
  cases t with
  | named n as =>
      rw [canonical_named, canonical_named, canonicalName_idem, List.map_map]
      refine congrArg _ (List.map_congr_left fun a _ => ?_)
      exact canonical_idem a
  | union ms =>
      rw [canonical_union, canonical_union, List.map_map]
      refine congrArg _ (List.map_congr_left fun m _ => ?_)
      exact canonical_idem m
  | wildcard => rfl
  | boundedAbove b => exact congrArg boundedAbove (canonical_idem b)
  | boundedBelow b => exact congrArg boundedBelow (canonical_idem b)

@[simp] theorem isAny_canonical :
    t.canonical.isAny = t.isAny := by
  cases t with
  | named n as =>
      cases as with
      | nil =>
          simp [isAny, canonicalName_idem]
      | cons a as =>
          simp [isAny]
  | _ =>
      simp

@[simp] theorem isUnion_canonical :
    t.canonical.isUnion = t.isUnion := by
  cases t <;> simp [isUnion]

/-! ### Writing -/

theorem isIntOrFloat_canonical :
    isIntOrFloat (ms.map canonical) = isIntOrFloat ms := by
  have hplain (f : TypeExpr → Option String) (hf : ∀ m, f m.canonical = f m) :
      (ms.map canonical).filterMap f = ms.filterMap f := by
    rw [List.filterMap_map]
    exact List.filterMap_congr fun m _ => hf m
  unfold isIntOrFloat
  rw [List.length_map, hplain]
  intro m
  cases m with
  | named n as =>
      cases as with
      | nil =>
          simp [canonicalName_idem]
      | cons a as =>
          simp
  | _ =>
      simp

mutual

theorem render_canonical :
    (t : TypeExpr) → t.canonical.render = t.render
  | named n [] => by
      simp [render, canonicalName_idem]
  | named n (a :: as) => by
      rw [canonical_named, List.map_cons, render, render, canonicalName_idem, render_canonical a,
        renderTail_canonical ", " as]
  | union ms => by
      rw [canonical_union, render, render, isIntOrFloat_canonical, renderJoin_canonical " | " ms]
  | wildcard => rfl
  | boundedAbove b => by
      rw [canonical_boundedAbove, render, render, render_canonical b]
  | boundedBelow b => by
      rw [canonical_boundedBelow, render, render, render_canonical b]

theorem renderJoin_canonical
    (separator : String) :
    (ms : List TypeExpr) → renderJoin separator (ms.map canonical) = renderJoin separator ms
  | [] => rfl
  | m :: ms => by
      rw [List.map_cons, renderJoin, renderJoin, render_canonical m,
        renderTail_canonical separator ms]

theorem renderTail_canonical
    (separator : String) :
    (ms : List TypeExpr) → renderTail separator (ms.map canonical) = renderTail separator ms
  | [] => rfl
  | m :: ms => by
      rw [List.map_cons, renderTail, renderTail, render_canonical m,
        renderTail_canonical separator ms]

end

end TypeExpr

/-! ### Comparing -/

namespace Typing

variable {reg : Registry}

mutual

theorem isSubtype_canonical_iff
    (a e : TypeExpr) :
    isSubtype reg a.canonical e.canonical = true ↔ isSubtype reg a e = true := by
  have hunion' : a.canonical.isUnion = a.isUnion := TypeExpr.isUnion_canonical
  have ha' : a.canonical.isAny = a.isAny := TypeExpr.isAny_canonical
  have he' : e.canonical.isAny = e.isAny := TypeExpr.isAny_canonical
  cases hunion : a.isUnion with
  | true =>
      cases a with
      | union us =>
          rw [TypeExpr.canonical_union, isSubtype_union_left_iff, isSubtype_union_left_iff,
            List.forall_mem_map]
          exact forall₂_congr fun u _ => isSubtype_canonical_iff u e
      | _ =>
          cases hunion
  | false =>
      rw [hunion] at hunion'
      by_cases hany : a.isAny = true ∨ e.isAny = true
      · rcases hany with ha | he
        · simp [isSubtype_of_isAny_left, ha]
        · simp [isSubtype_of_isAny_right, he]
      obtain ⟨ha, he⟩ := not_or.mp hany
      rw [Bool.not_eq_true] at ha he
      rw [ha] at ha'
      rw [he] at he'
      cases e with
      | union ms =>
          rw [TypeExpr.canonical_union, isSubtype_union_right_iff hunion ha,
            isSubtype_union_right_iff hunion' ha']
          simp only [List.mem_map, exists_exists_and_eq_and]
          exact exists_congr fun m => and_congr_right fun _ => isSubtype_canonical_iff a m
      | wildcard =>
          simp [isSubtype_wildcard]
      | boundedAbove b =>
          rw [TypeExpr.canonical_boundedAbove, isSubtype_boundedAbove_iff,
            isSubtype_boundedAbove_iff]
          exact isSubtype_canonical_iff a b
      | boundedBelow b =>
          rw [TypeExpr.canonical_boundedBelow, isSubtype_boundedBelow_iff hunion,
            isSubtype_boundedBelow_iff hunion']
          exact isSubtype_canonical_iff b a
      | named n es =>
          rw [TypeExpr.canonical_named] at he' ⊢
          cases a with
          | union us =>
              cases hunion
          | named k as =>
              rw [TypeExpr.canonical_named] at ha' ⊢
              rw [isSubtype_named_iff ha he, isSubtype_named_iff ha' he', canonicalName_idem,
                canonicalName_idem, List.map_eq_nil_iff, List.map_eq_nil_iff,
                argsMatch_canonical as es]
          | wildcard =>
              rw [TypeExpr.canonical_wildcard, isSubtype_unbounded_left (.inl rfl),
                isSubtype_unbounded_left (.inl rfl), he, he']
          | boundedBelow b =>
              rw [TypeExpr.canonical_boundedBelow, isSubtype_unbounded_left (.inr ⟨_, rfl⟩),
                isSubtype_unbounded_left (.inr ⟨_, rfl⟩), he, he']
          | boundedAbove b =>
              rw [TypeExpr.canonical_boundedAbove, isSubtype_boundedAbove_left_iff rfl,
                isSubtype_boundedAbove_left_iff rfl, ← TypeExpr.canonical_named]
              exact isSubtype_canonical_iff b (.named n es)
termination_by sizeOf a + sizeOf e

theorem argFits_canonical_iff
    (a r : TypeExpr) :
    argFits reg a.canonical r.canonical = true ↔ argFits reg a r = true := by
  have hunion' : a.canonical.isUnion = a.isUnion := TypeExpr.isUnion_canonical
  have ha' : a.canonical.isAny = a.isAny := TypeExpr.isAny_canonical
  have hr' : r.canonical.isAny = r.isAny := TypeExpr.isAny_canonical
  by_cases hany : a.isAny = true ∨ r.isAny = true
  · rcases hany with ha | hr
    · simp [argFits_of_isAny_left, ha]
    · simp [argFits_of_isAny_right, hr]
  obtain ⟨ha, hr⟩ := not_or.mp hany
  rw [Bool.not_eq_true] at ha hr
  rw [ha] at ha'
  rw [hr] at hr'
  cases r with
  | wildcard =>
      simp [argFits_wildcard]
  | boundedAbove b =>
      rw [TypeExpr.canonical_boundedAbove, argFits_boundedAbove, argFits_boundedAbove]
      exact isSubtype_canonical_iff a b
  | boundedBelow b =>
      rw [TypeExpr.canonical_boundedBelow, argFits_boundedBelow, argFits_boundedBelow]
      exact isSubtype_canonical_iff b a
  | union rs =>
      cases hunion : a.isUnion with
      | true =>
          cases a with
          | union us =>
              rw [TypeExpr.canonical_union, argFits_union_left_iff, argFits_union_left_iff,
                List.forall_mem_map]
              · exact forall₂_congr fun u _ => argFits_canonical_iff u (.union rs)
              · nofun
              · exact fun b hb => by simp at hb
          | _ =>
              cases hunion
      | false =>
          rw [hunion] at hunion'
          rw [TypeExpr.canonical_union, argFits_union_right_iff hunion ha,
            argFits_union_right_iff hunion' ha']
          simp only [List.mem_map, exists_exists_and_eq_and]
          exact exists_congr fun m => and_congr_right fun _ => argFits_canonical_iff a m
  | named n rs =>
      cases a with
      | union us =>
          rw [TypeExpr.canonical_union, argFits_union_left_iff, argFits_union_left_iff,
            List.forall_mem_map]
          · exact forall₂_congr fun u _ => argFits_canonical_iff u (.named n rs)
          · nofun
          · exact fun b hb => by simp at hb
      | named k as =>
          rw [TypeExpr.canonical_named] at ha' hr' ⊢
          rw [TypeExpr.canonical_named, argFits_named_iff ha hr, argFits_named_iff ha' hr',
            canonicalName_idem, canonicalName_idem, List.map_eq_nil_iff, List.map_eq_nil_iff,
            argsMatch_canonical as rs]
      | _ =>
          rw [TypeExpr.canonical_named] at hr' ⊢
          rw [argFits_unnamed_left rfl rfl, hr', argFits_unnamed_left rfl rfl, hr]
termination_by sizeOf a + sizeOf r

theorem argsMatch_canonical :
    (as rs : List TypeExpr) →
      argsMatch reg (as.map .canonical) (rs.map .canonical) = argsMatch reg as rs
  | [], [] => rfl
  | a :: as, r :: rs => by
      rw [List.map_cons, List.map_cons, argsMatch, argsMatch, argsMatch_canonical as rs,
        Bool.eq_iff_iff.mpr (argFits_canonical_iff a r)]
  | [], _ :: _ | _ :: _, [] => by
      simp [argsMatch]
termination_by as rs => sizeOf as + sizeOf rs

end

/-- Only one side need be written canonically. -/
theorem isSubtype_canonical_left_iff
    (a e : TypeExpr) :
    isSubtype reg a.canonical e = true ↔ isSubtype reg a e = true := by
  rw [← isSubtype_canonical_iff, TypeExpr.canonical_idem, isSubtype_canonical_iff]

theorem argsMatch_canonical_right
    (as rs : List TypeExpr) :
    argsMatch reg as (rs.map .canonical) = argsMatch reg as rs := by
  have hidem : (rs.map TypeExpr.canonical).map TypeExpr.canonical = rs.map TypeExpr.canonical := by
    rw [List.map_map]
    exact List.map_congr_left fun r _ => TypeExpr.canonical_idem r
  rw [← argsMatch_canonical, hidem, argsMatch_canonical]

end Typing

/-! ### Testing values -/

namespace Heap

variable {h : Heap}

mutual

theorem instanceOf_canonical
    (v : Value) :
    (t : TypeExpr) → h.instanceOf v t.canonical = h.instanceOf v t
  | .named n as => by
      simp only [TypeExpr.canonical_named, instanceOf, namedInstance, canonicalName_idem,
        List.isEmpty_map, Typing.argsMatch_canonical_right]
      have hslots : (fun slots => h.slotsMatch slots (as.map .canonical)) =
          fun slots => h.slotsMatch slots as := by
        funext slots
        exact slotsMatch_canonical slots as
      rw [hslots]
  | .union ms => by
      rw [TypeExpr.canonical_union, instanceOf, instanceOf, instanceOfAny_canonical v ms]
  | .wildcard => rfl
  | .boundedAbove b => by
      rw [TypeExpr.canonical_boundedAbove, instanceOf, instanceOf, instanceOf_canonical v b]
  | .boundedBelow b => by
      rw [TypeExpr.canonical_boundedBelow, instanceOf, instanceOf, Bool.eq_iff_iff]
      exact Typing.isSubtype_canonical_left_iff b _

theorem instanceOfAny_canonical
    (v : Value) :
    (ms : List TypeExpr) → h.instanceOfAny v (ms.map .canonical) = h.instanceOfAny v ms
  | [] => rfl
  | m :: ms => by
      rw [List.map_cons, instanceOfAny, instanceOfAny, instanceOf_canonical v m,
        instanceOfAny_canonical v ms]

theorem slotsMatch_canonical
    (slots : List (List Value)) :
    (ts : List TypeExpr) → h.slotsMatch slots (ts.map .canonical) = h.slotsMatch slots ts
  | [] => rfl
  | t :: ts => by
      cases slots with
      | nil =>
          rfl
      | cons s slots =>
          have hslot : (fun v => h.instanceOf v t.canonical) = fun v => h.instanceOf v t := by
            funext v
            exact instanceOf_canonical v t
          rw [List.map_cons, slotsMatch, slotsMatch, hslot, slotsMatch_canonical slots ts]

end

theorem plainConforms_canonicalName
    (v : Value) (n : String) :
    h.plainConforms v (canonicalName n) = h.plainConforms v n := by
  have hinstance : h.instanceOf v (.named (canonicalName n) []) = h.instanceOf v (.named n []) := by
    rw [← instanceOf_canonical v (.named n []), TypeExpr.canonical_named, List.map_nil]
  simp only [plainConforms, canonicalName_idem, hinstance]

mutual

theorem fits_canonical
    (v : Value) :
    (t : TypeExpr) → h.fits v t.canonical = h.fits v t
  | .named n as => by
      have hinstance := h.instanceOf_canonical v (.named n as)
      rw [TypeExpr.canonical_named] at hinstance ⊢
      simp only [fits, canonicalName_idem, List.isEmpty_map, plainConforms_canonicalName, hinstance]
  | .union ms => by
      rw [TypeExpr.canonical_union, fits, fits, fitsAny_canonical v ms]
  | .wildcard => rfl
  | .boundedAbove b => instanceOf_canonical v (.boundedAbove b)
  | .boundedBelow b => instanceOf_canonical v (.boundedBelow b)

theorem fitsAny_canonical
    (v : Value) :
    (ms : List TypeExpr) → h.fitsAny v (ms.map .canonical) = h.fitsAny v ms
  | [] => rfl
  | m :: ms => by
      rw [List.map_cons, fitsAny, fitsAny, fits_canonical v m, fitsAny_canonical v ms]

end

/-- Nothing that is asked of types tells two of them apart. -/
structure NotToldApart (h : Heap) (t t' : TypeExpr) : Prop where
  instanceOf : ∀ v, h.instanceOf v t = h.instanceOf v t'
  isSubtype_left : ∀ u, Typing.isSubtype h.registry t u = Typing.isSubtype h.registry t' u
  isSubtype_right : ∀ u, Typing.isSubtype h.registry u t = Typing.isSubtype h.registry u t'
  argFits_left : ∀ u, Typing.argFits h.registry t u = Typing.argFits h.registry t' u
  argFits_right : ∀ u, Typing.argFits h.registry u t = Typing.argFits h.registry u t'
  conforms : ∀ v, h.conforms v t [] = h.conforms v t' []
  render : t.render = t'.render

/-- Types with the same canonical spelling are not told apart, and the canonical spelling of a type
has itself as its canonical spelling. -/
theorem spelling_invisible
    (h : Heap) (t : TypeExpr) :
    t.canonical.canonical = t.canonical ∧
      ∀ t', t.canonical = t'.canonical → h.NotToldApart t t' := by
  refine ⟨t.canonical_idem, fun t' hsame => ?_⟩
  constructor
  case instanceOf =>
    intro v
    rw [← instanceOf_canonical v t, hsame, instanceOf_canonical]
  case isSubtype_left =>
    intro u
    rw [Bool.eq_iff_iff, ← Typing.isSubtype_canonical_iff, hsame, Typing.isSubtype_canonical_iff]
  case isSubtype_right =>
    intro u
    rw [Bool.eq_iff_iff, ← Typing.isSubtype_canonical_iff, hsame, Typing.isSubtype_canonical_iff]
  case argFits_left =>
    intro u
    rw [Bool.eq_iff_iff, ← Typing.argFits_canonical_iff, hsame, Typing.argFits_canonical_iff]
  case argFits_right =>
    intro u
    rw [Bool.eq_iff_iff, ← Typing.argFits_canonical_iff, hsame, Typing.argFits_canonical_iff]
  case conforms =>
    intro v
    simp only [Heap.conforms, TypeExpr.substitute_nil]
    rw [← fits_canonical v t, hsame, fits_canonical]
  case render =>
    rw [← t.render_canonical, hsame, t'.render_canonical]

/-- A map of strings to numbers, and the same in other spellings. -/
theorem spelling_invisible_map :
    let t : TypeExpr := .named "Map" [.simple "str", .union [.simple "integer", .simple "DOUBLE"]]
    let t' : TypeExpr := .named "Map" [.simple "String", .union [.simple "Int", .simple "Float"]]
    t.canonical = t'.canonical ∧ empty.NotToldApart t t' := by
  intro t t'
  have hnames : canonicalName "str" = canonicalName "String" ∧
      canonicalName "integer" = canonicalName "Int" ∧
      canonicalName "DOUBLE" = canonicalName "Float" := by
    decide +kernel
  have hsame : t.canonical = t'.canonical := by
    simp [t, t', TypeExpr.simple, hnames]
  exact ⟨hsame, (spelling_invisible empty t).2 t' hsame⟩

end Heap
end ScriptEngine
