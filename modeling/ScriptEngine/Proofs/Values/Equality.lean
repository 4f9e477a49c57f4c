import ScriptEngine.Proofs.Maps.Keys
import ScriptEngine.Proofs.Values.Parts

/-!
# The equality of values

Two values are equal if they are one, or if they are arrays or records whose parts are equal.  What
has an identity is known by its number; a method that was looked up on a value has one as well, but
equality does not ask for it.

**Laws.**  So equality is symmetric and transitive on values without fractions, and every value but a
method that was looked up is equal to itself (`equals_laws`).

**Depth.**  Equality goes down to a depth that the heap allows, which is enough for every value that
is not part of itself (`equals_iff_alike`).
-/

namespace ScriptEngine

/-! ### What values are known by -/

namespace Value

/-- Whether a value is a method that was looked up on an instance, a class or another value. -/
def isBoundMethod : Value → Bool
  | instanceMethod _ _ _ _ | staticMethod _ _ _ | builtinMethod _ _ _ => true
  | _ => false

/-- What a value is known by, if by anything: fractions are compared as numbers, and methods that
were looked up are not compared. -/
def token? : Value → Option KeyImage
  | nil => some .nil
  | bool b => some (.bool b)
  | int i => some (.int i)
  | float _ => none
  | str s => some (.str s)
  | array id => some (.identity (.array id))
  | map id => some (.identity (.map id))
  | function id _ => some (.identity (.function id))
  | native f => some (.identity (.native f))
  | instanceMethod _ _ _ _ | staticMethod _ _ _ | builtinMethod _ _ _ => none
  | classDef c => some (.identity (.cls c.id))
  | interfaceDef i => some (.identity (.interface i.own.id))
  | object o => some (.identity (.object o.id))
  | collection c => some (.identity (.collection c.id))
  | thread id => some (.identity (.thread id))
  | channel id _ => some (.identity (.channel id))
  | future id _ => some (.identity (.future id))
  | module m => some (.identity (.module m))

theorem exists_token_iff
    {v : Value} (hv : ∀ x, v ≠ .float x) :
    (∃ k, v.token? = some k) ↔ v.isBoundMethod = false := by
  cases v with
  | float x =>
      exact absurd rfl (hv x)
  | _ =>
      simp [token?, isBoundMethod]

end Value

namespace Heap

variable {h : Heap} {a b c v w : Value} {o o' : Instance} {n m : Nat}
variable {test test' : Value → Value → Prop}

/-- Two values are one, or arrays or records with parts that pass a test. -/
inductive Alike (h : Heap) (test : Value → Value → Prop) : Value → Value → Prop
  | same {a b : Value} {k : KeyImage} (ha : a.token? = some k) (hb : b.token? = some k) :
      Alike h test a b
  | arrays {i j : Nat} (hitems : List.Forall₂ test (h.array i).toList (h.array j).toList) :
      Alike h test (.array i) (.array j)
  | records {o o' : Instance} (hkind : o.cls.kind = .record) (hclass : o.cls.id = o'.cls.id)
      (hparts : ∀ c ∈ o.cls.own.components, ∃ x y,
        h.field? o c.name = some x ∧ h.field? o' c.name = some y ∧ test x y) :
      Alike h test (.object o) (.object o')

theorem allPairs_iff
    {test : Value → Value → Bool} {as bs : List Value} :
    allPairs test as bs = true ↔ List.Forall₂ (fun a b => test a b = true) as bs := by
  induction as generalizing bs with
  | nil =>
      cases bs <;> simp [allPairs]
  | cons a as ih =>
      cases bs with
      | nil =>
          simp [allPairs]
      | cons b bs =>
          simp [allPairs, ih]

theorem equalsWithin_of_token
    {k : KeyImage} (ha : a.token? = some k) (hb : b.token? = some k) :
    h.equalsWithin (n + 1) a b = true := by
  cases a <;> cases ha <;> cases b <;> simp_all [equalsWithin, Value.token?]

/-- Without fractions, values are equal if they are one, or if their parts are equal. -/
theorem equalsWithin_succ_iff
    (ha : ∀ x, a ≠ .float x) (hb : ∀ x, b ≠ .float x) :
    h.equalsWithin (n + 1) a b = true ↔ h.Alike (fun x y => h.equalsWithin n x y = true) a b := by
  constructor
  · intro heq
    unfold equalsWithin at heq
    split at heq
    case h_8 i j =>
      rw [Bool.or_eq_true, beq_iff_eq, allPairs_iff] at heq
      rcases heq with rfl | hitems
      · exact .same rfl rfl
      · exact .arrays hitems
    case h_10 o o' =>
      rcases equalsWithin_object_iff.mp heq with hid | ⟨hkind, hclass, hparts⟩
      · exact .same rfl (by rw [hid]; rfl)
      · exact .records hkind hclass hparts
    case h_1 =>
      exact .same rfl rfl
    case h_4 | h_6 =>
      exact absurd rfl (ha _)
    case h_5 =>
      exact absurd rfl (hb _)
    case h_20 =>
      cases heq
    -- All others are known by one number or name.
    all_goals
      rw [beq_iff_eq] at heq
      exact .same rfl (by simp [Value.token?, heq])
  · rintro (⟨ha, hb⟩ | hitems | ⟨hkind, hclass, hparts⟩)
    · exact equalsWithin_of_token ha hb
    · rw [equalsWithin, Bool.or_eq_true, allPairs_iff]
      exact .inr hitems
    · exact equalsWithin_object_iff.mpr (.inr ⟨hkind, hclass, hparts⟩)

/-! ### Parts that are compared -/

/-- The values that equality may compare in the place of a value. -/
def comparands (h : Heap) : Value → List Value
  | .array id => (h.array id).toList
  | .object o =>
    if o.cls.kind = .record then o.cls.own.components.filterMap fun c => h.field? o c.name else []
  | _ => []

/-- A value is another or is compared in its place, at any depth. -/
def Holds (h : Heap) : Value → Value → Prop :=
  Relation.ReflTransGen fun v w => w ∈ h.comparands v

/-- A value without fractions, whose objects are those of the heap. -/
structure Comparable (h : Heap) (v : Value) : Prop where
  ne_float : ∀ w, h.Holds v w → ∀ x, w ≠ .float x
  owns : ∀ o, h.Holds v (.object o) → h.Owns o

namespace Comparable

theorem part
    (hv : h.Comparable v) (hw : w ∈ h.comparands v) :
    h.Comparable w where
  ne_float u hu := hv.ne_float u (.head hw hu)
  owns o ho := hv.owns o (.head hw ho)

theorem of_parts
    (hfloat : ∀ x, v ≠ .float x) (howns : ∀ o, v = .object o → h.Owns o)
    (hparts : ∀ w ∈ h.comparands v, h.Comparable w) :
    h.Comparable v := by
  constructor
  case ne_float =>
    intro w hw
    rcases Relation.ReflTransGen.cases_head hw with rfl | ⟨u, hu, hrest⟩
    · exact hfloat
    · exact (hparts u hu).ne_float w hrest
  case owns =>
    intro o ho
    rcases Relation.ReflTransGen.cases_head ho with hself | ⟨u, hu, hrest⟩
    · exact howns o hself
    · exact (hparts u hu).owns o hrest

theorem cls_eq
    (ho : h.Comparable (.object o)) (ho' : h.Comparable (.object o')) (hclasses : h.ClassesApart)
    (hclass : o.cls.id = o'.cls.id) :
    o.cls = o'.cls :=
  hclasses o o' (ho.owns o .refl) (ho'.owns o' .refl) hclass

end Comparable

theorem mem_comparands_record
    {p : Param} (hkind : o.cls.kind = .record) (hp : p ∈ o.cls.own.components)
    (hfield : h.field? o p.name = some v) :
    v ∈ h.comparands (.object o) := by
  rw [comparands, if_pos hkind]
  exact List.mem_filterMap.mpr ⟨p, hp, hfield⟩

/-! ### Laws of likeness -/

theorem forall₂_of_mem
    {α : Type} {R S : α → α → Prop} {xs ys : List α} (hall : List.Forall₂ R xs ys)
    (hS : ∀ x ∈ xs, ∀ y ∈ ys, R x y → S x y) :
    List.Forall₂ S xs ys := by
  rw [List.forall₂_iff_zip] at hall ⊢
  refine ⟨hall.1, fun hmem => ?_⟩
  obtain ⟨hx, hy⟩ := List.of_mem_zip hmem
  exact hS _ hx _ hy (hall.2 hmem)

theorem forall₂_trans_of_mem
    {α : Type} {R : α → α → Prop} {xs ys zs : List α} (hxy : List.Forall₂ R xs ys)
    (hyz : List.Forall₂ R ys zs)
    (hR : ∀ x ∈ xs, ∀ y ∈ ys, ∀ z ∈ zs, R x y → R y z → R x z) :
    List.Forall₂ R xs zs := by
  induction hxy generalizing zs with
  | nil =>
      exact hyz
  | cons hx _ ih =>
      cases hyz with
      | cons hy hrest =>
          refine .cons (hR _ (.head _) _ (.head _) _ (.head _) hx hy) (ih hrest ?_)
          intro x hx y hy z hz
          exact hR x (.tail _ hx) y (.tail _ hy) z (.tail _ hz)

namespace Alike

theorem imp
    (hab : h.Alike test a b)
    (htest : ∀ x ∈ h.comparands a, ∀ y ∈ h.comparands b, test x y → test' x y)
    (hclasses : h.ClassesApart) (ha : h.Comparable a) (hb : h.Comparable b) :
    h.Alike test' a b := by
  cases hab with
  | same ha hb =>
      exact .same ha hb
  | arrays hitems =>
      exact .arrays (forall₂_of_mem hitems htest)
  | @records o o' hkind hclass hparts =>
      have hcls : o.cls = o'.cls := ha.cls_eq hb hclasses hclass
      refine .records hkind hclass fun c hc => ?_
      obtain ⟨x, y, hx, hy, hxy⟩ := hparts c hc
      refine ⟨x, y, hx, hy, htest x ?_ y ?_ hxy⟩
      · exact mem_comparands_record hkind hc hx
      · exact mem_comparands_record (hcls ▸ hkind) (hcls ▸ hc) hy

theorem symm
    (hab : h.Alike test a b)
    (htest : ∀ x ∈ h.comparands a, ∀ y ∈ h.comparands b, test x y → test y x)
    (hclasses : h.ClassesApart) (ha : h.Comparable a) (hb : h.Comparable b) :
    h.Alike test b a := by
  have hflip : h.Alike (fun x y => test y x) a b := hab.imp htest hclasses ha hb
  cases hflip with
  | same ha hb =>
      exact .same hb ha
  | arrays hitems =>
      exact .arrays hitems.flip
  | @records o o' hkind hclass hparts =>
      have hcls : o.cls = o'.cls := ha.cls_eq hb hclasses hclass
      rw [hcls] at hkind hparts
      refine .records hkind hclass.symm fun c hc => ?_
      obtain ⟨x, y, hx, hy, hxy⟩ := hparts c hc
      exact ⟨y, x, hy, hx, hxy⟩

/-- What is one with an array is that array. -/
theorem eq_array_of_token
    {i : Nat} {k : KeyImage} (ha : a.token? = some k) (hb : (Value.array i).token? = some k) :
    a = .array i := by
  cases hb
  cases a <;> simp_all [Value.token?]

/-- What is one with an instance of the heap is that instance. -/
theorem eq_object_of_token
    {k : KeyImage} (ha : a.token? = some k) (ho : (Value.object o).token? = some k)
    (hcomp : h.Comparable a) (howns : h.Owns o) :
    a = .object o := by
  cases ho
  cases a with
  | object o' =>
      have hid : o'.id = o.id := by simpa [Value.token?] using ha
      rw [(hcomp.owns o' .refl).eq_of_id howns hid]
  | _ =>
      simp [Value.token?] at ha

theorem trans
    (hab : h.Alike test a b) (hbc : h.Alike test b c)
    (htest : ∀ x ∈ h.comparands a, ∀ y ∈ h.comparands b, ∀ z ∈ h.comparands c,
      test x y → test y z → test x z)
    (hclasses : h.ClassesApart) (ha : h.Comparable a) (hb : h.Comparable b)
    (hc : h.Comparable c) :
    h.Alike test a c := by
  cases hab with
  | same hta htb =>
      cases hbc with
      | same htb' htc =>
          rw [htb] at htb'
          cases htb'
          exact .same hta htc
      | arrays hitems =>
          rw [eq_array_of_token hta htb]
          exact .arrays hitems
      | records hkind hclass hparts =>
          rw [eq_object_of_token hta htb ha (hb.owns _ .refl)]
          exact .records hkind hclass hparts
  | arrays hitems =>
      cases hbc with
      | same htb htc =>
          rw [eq_array_of_token htc htb]
          exact .arrays hitems
      | arrays hitems' =>
          exact .arrays (forall₂_trans_of_mem hitems hitems' htest)
  | @records o o' hkind hclass hparts =>
      have hcls : o.cls = o'.cls := ha.cls_eq hb hclasses hclass
      cases hbc with
      | same htb htc =>
          rw [eq_object_of_token htc htb hc (hb.owns _ .refl)]
          exact .records hkind hclass hparts
      | @records _ o'' hkind' hclass' hparts' =>
          have hcls' : o'.cls = o''.cls := hb.cls_eq hc hclasses hclass'
          refine .records hkind (hclass.trans hclass') fun p hp => ?_
          obtain ⟨x, y, hx, hy, hxy⟩ := hparts p hp
          obtain ⟨y', z, hy', hz, hyz⟩ := hparts' p (hcls ▸ hp)
          rw [hy, Option.some.injEq] at hy'
          subst hy'
          refine ⟨x, z, hx, hz, htest x ?_ y ?_ z ?_ hxy hyz⟩
          · exact mem_comparands_record hkind hp hx
          · exact mem_comparands_record hkind' (hcls ▸ hp) hy
          · exact mem_comparands_record (hcls' ▸ hkind') (hcls' ▸ hcls ▸ hp) hz

end Alike

/-! ### Laws of equality -/

/-- A value is equal to itself unless it is a method that was looked up. -/
theorem equalsWithin_self_iff
    (ha : ∀ x, a ≠ .float x) :
    h.equalsWithin (n + 1) a a = true ↔ a.isBoundMethod = false := by
  rw [← Value.exists_token_iff ha]
  constructor
  · intro heq
    cases (equalsWithin_succ_iff ha ha).mp heq with
    | same htoken _ => exact ⟨_, htoken⟩
    | arrays _ | records _ _ _ => exact ⟨_, rfl⟩
  · rintro ⟨k, hk⟩
    exact equalsWithin_of_token hk hk

theorem equalsWithin_symm
    (hclasses : h.ClassesApart) (ha : h.Comparable a) (hb : h.Comparable b)
    (hab : h.equalsWithin n a b = true) :
    h.equalsWithin n b a = true := by
  induction n generalizing a b with
  | zero =>
      simp [equalsWithin] at hab
  | succ n ih =>
      rw [equalsWithin_succ_iff (hb.ne_float b .refl) (ha.ne_float a .refl)]
      rw [equalsWithin_succ_iff (ha.ne_float a .refl) (hb.ne_float b .refl)] at hab
      exact hab.symm (fun x hx y hy => ih (ha.part hx) (hb.part hy)) hclasses ha hb

theorem equalsWithin_trans
    (hclasses : h.ClassesApart) (ha : h.Comparable a) (hb : h.Comparable b) (hc : h.Comparable c)
    (hab : h.equalsWithin n a b = true) (hbc : h.equalsWithin n b c = true) :
    h.equalsWithin n a c = true := by
  induction n generalizing a b c with
  | zero =>
      simp [equalsWithin] at hab
  | succ n ih =>
      rw [equalsWithin_succ_iff (ha.ne_float a .refl) (hb.ne_float b .refl)] at hab
      rw [equalsWithin_succ_iff (hb.ne_float b .refl) (hc.ne_float c .refl)] at hbc
      rw [equalsWithin_succ_iff (ha.ne_float a .refl) (hc.ne_float c .refl)]
      exact hab.trans hbc
        (fun x hx y hy z hz => ih (ha.part hx) (hb.part hy) (hc.part hz)) hclasses ha hb hc

/-! ### Depth of equality -/

/-- At the depth that a value ends within, its parts are compared as at any greater one. -/
theorem equalsWithin_of_endsWithin
    (hclasses : h.ClassesApart) (hends : EndsWithin h.comparands n a) (hle : n ≤ m)
    (ha : h.Comparable a) (hb : h.Comparable b) :
    h.equalsWithin m a b = true ↔ h.equalsWithin n a b = true := by
  induction hends generalizing m b with
  | mk _ ih =>
      obtain ⟨m, rfl⟩ := Nat.exists_eq_succ_of_ne_zero (Nat.ne_zero_of_lt hle)
      have hle := Nat.le_of_succ_le_succ hle
      rw [equalsWithin_succ_iff (ha.ne_float _ .refl) (hb.ne_float _ .refl),
        equalsWithin_succ_iff (ha.ne_float _ .refl) (hb.ne_float _ .refl)]
      constructor
      · intro hab
        exact hab.imp (fun x hx y hy => (ih x hx hle (ha.part hx) (hb.part hy)).mp) hclasses ha hb
      · intro hab
        exact hab.imp (fun x hx y hy => (ih x hx hle (ha.part hx) (hb.part hy)).mpr) hclasses ha hb

/-- A value with parts is an array of the heap or an instance. -/
inductive HasParts (h : Heap) : Value → Prop
  | array {i : Nat} (hi : i < h.arrays.size) : HasParts h (.array i)
  | object (o : Instance) : HasParts h (.object o)

theorem hasParts_of_comparands (hv : h.comparands v ≠ []) : h.HasParts v := by
  cases v with
  | array i =>
      refine .array (Nat.lt_of_not_le fun hle => hv ?_)
      simp [comparands, array, hle]
  | object o =>
      exact .object o
  | _ =>
      exact absurd rfl hv

/-- The place of a value with parts: arrays come before instances. -/
def placeOf (h : Heap) : Value → Nat
  | .array i => i
  | .object o => h.arrays.size + o.id
  | _ => 0

theorem comparands_placed (h : Heap) :
    Placed h.comparands h.Comparable h.placeOf (h.arrays.size + h.objects.size) where
  part v hv w hw := hv.part hw
  lt v hv hne := by
    cases hasParts_of_comparands hne with
    | array hi => exact Nat.lt_add_right _ hi
    | object o => exact Nat.add_lt_add_left (hv.owns o .refl).id_lt _
  parts_eq v w hv hw hvne hwne hplace := by
    cases hasParts_of_comparands hvne with
    | array hi =>
        cases hasParts_of_comparands hwne with
        | array _ =>
            exact congrArg _ (congrArg _ hplace)
        | object o =>
            exact absurd hplace (by simp only [placeOf]; omega)
    | object o =>
        cases hasParts_of_comparands hwne with
        | array _ =>
            exact absurd hplace (by simp only [placeOf]; omega)
        | object o' =>
            have hid : o.id = o'.id := Nat.add_left_cancel hplace
            rw [(hv.owns o .refl).eq_of_id (hw.owns o' .refl) hid]

/-- The depth of equality is not felt at a value that is not part of itself. -/
theorem equals_iff_alike
    (hclasses : h.ClassesApart) (ha : h.Comparable a) (hb : h.Comparable b)
    (hacyclic : AcyclicFrom h.comparands a) :
    h.equals a b = true ↔ h.Alike (fun x y => h.equals x y = true) a b := by
  have hends : EndsWithin h.comparands h.depthLimit a := by
    refine (endsWithin_of_acyclic (comparands_placed h) ha hacyclic).mono ?_
    rw [depthLimit]
    omega
  have hdeeper : h.equalsWithin (h.depthLimit + 1) a b = true ↔ h.equals a b = true :=
    equalsWithin_of_endsWithin hclasses hends (Nat.le_succ _) ha hb
  rw [← hdeeper]
  exact equalsWithin_succ_iff (ha.ne_float a .refl) (hb.ne_float b .refl)

/-- Equality is symmetric and transitive on values without fractions, and reflexive on all of them
but the methods that were looked up.  Values that are not part of themselves are equal just if they
are one, or arrays or records with equal parts. -/
theorem equals_laws
    (h : Heap) (hclasses : h.ClassesApart) (a b c : Value) (ha : h.Comparable a)
    (hb : h.Comparable b) (hc : h.Comparable c) :
    (h.equals a a = true ↔ a.isBoundMethod = false) ∧
    (h.equals a b = true → h.equals b a = true) ∧
    (h.equals a b = true → h.equals b c = true → h.equals a c = true) ∧
    (AcyclicFrom h.comparands a →
      (h.equals a b = true ↔ h.Alike (fun x y => h.equals x y = true) a b)) :=
  ⟨equalsWithin_self_iff (ha.ne_float a .refl), equalsWithin_symm hclasses ha hb,
    equalsWithin_trans hclasses ha hb hc, equals_iff_alike hclasses ha hb⟩

/-- Two arrays that hold equal cells. -/
def trays : Heap :=
  { cells with arrays := #[#[.object (cell 0)], #[.object (cell 1)]] }

namespace trays

theorem owns_cells {o : Instance} (ho : trays.Owns o) : cells.Owns o :=
  ⟨ho.id_lt, ho.self_eq⟩

theorem classesApart : trays.ClassesApart :=
  fun o o' ho ho' => cells.classesApart o o' (owns_cells ho) (owns_cells ho')

theorem comparands_cell : ∀ i < 2, trays.comparands (.object (cell i)) = [.int 1]
  | 0, _ | 1, _ => rfl

theorem comparands_tray : ∀ i < 2, trays.comparands (.array i) = [.object (cell i)]
  | 0, _ | 1, _ => rfl

theorem comparable_cell (i : Nat) (hi : i < 2) : trays.Comparable (.object (cell i)) := by
  refine .of_parts nofun ?_ fun w hw => ?_
  · rintro o ⟨⟩
    have hi : i < 3 := Nat.lt_succ_of_lt hi
    exact ⟨hi, cells.self_eq i hi⟩
  · rw [comparands_cell i hi, List.mem_singleton] at hw
    exact hw ▸ .of_parts nofun nofun nofun

theorem comparable (i : Nat) (hi : i < 2) : trays.Comparable (.array i) := by
  refine .of_parts nofun nofun fun w hw => ?_
  rw [comparands_tray i hi, List.mem_singleton] at hw
  exact hw ▸ comparable_cell i hi

end trays

theorem equals_laws_trays :
    trays.equals (.array 0) (.array 1) = true ∧ trays.equals (.array 1) (.array 0) = true := by
  have heq : trays.equals (.array 0) (.array 1) = true := by decide
  obtain ⟨-, hsymm, -, -⟩ := equals_laws trays trays.classesApart (.array 0) (.array 1) (.array 0)
    (trays.comparable 0 (by decide)) (trays.comparable 1 (by decide))
    (trays.comparable 0 (by decide))
  exact ⟨heq, hsymm heq⟩

end Heap
end ScriptEngine
