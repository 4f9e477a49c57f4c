import Mathlib
import ScriptEngine.Proofs.Typing.Subtyping
import ScriptEngine.Proofs.Values.Parts

/-!
# The types that values tell

The runtime type of a value is made from the bottom up: it has the type arguments that the value was
given or, for a collection that was given none, those that its elements share.  The test of a type
goes from the top down: it compares the arguments that were given, or else asks each element.

**Matching.**  Type arguments without wildcards match themselves (`Typing.argsMatch_of_wildcardFree`).

**Sharing.**  A type that values share is one of their types, the union of them, or the type of
numbers; each value is of it, if it is of its own (`Bears.of_commonType`).

**Depth.**  The runtime type goes down to a depth that the heap allows, which is enough for every
value that is not part of itself (`nestsWithin_of_acyclic`, `runtimeType_collection`).

So every value is of its own runtime type, and of the type that it shares with others
(`instanceOf_runtimeType`).
-/

namespace ScriptEngine

/-! ### Types without wildcards -/

namespace TypeExpr

mutual

/-- Whether no wildcard stands in a type. -/
def isWildcardFree : TypeExpr → Bool
  | named _ as => areWildcardFree as
  | union ms => areWildcardFree ms
  | wildcard | boundedAbove _ | boundedBelow _ => false

/-- Whether no wildcard stands in any of several types. -/
def areWildcardFree : List TypeExpr → Bool
  | [] => true
  | a :: as => isWildcardFree a && areWildcardFree as

end

theorem areWildcardFree_iff
    (as : List TypeExpr) :
    areWildcardFree as = true ↔ ∀ a ∈ as, a.isWildcardFree = true := by
  induction as with
  | nil =>
      simp [areWildcardFree]
  | cons a as ih =>
      simp [areWildcardFree, ih]

mutual

theorem eq_of_same :
    (a b : TypeExpr) → same a b = true → a = b
  | named n as, named m bs, h => by
      simp only [same, Bool.and_eq_true, beq_iff_eq] at h
      rw [h.1, eq_of_sameList as bs h.2]
  | union as, union bs, h => by
      rw [eq_of_sameList as bs h]
  | wildcard, wildcard, _ => rfl
  | boundedAbove a, boundedAbove b, h => by
      rw [eq_of_same a b h]
  | boundedBelow a, boundedBelow b, h => by
      rw [eq_of_same a b h]

theorem eq_of_sameList :
    (as bs : List TypeExpr) → sameList as bs = true → as = bs
  | [], [], _ => rfl
  | a :: as, b :: bs, h => by
      simp only [sameList, Bool.and_eq_true] at h
      rw [eq_of_same a b h.1, eq_of_sameList as bs h.2]

end

end TypeExpr

/-! ### Matching -/

namespace Typing

variable {reg : Registry}

/-- Without wildcards there is nothing to bound. -/
theorem settled_of_wildcardFree :
    (a : TypeExpr) → a.isWildcardFree = true → Settled reg a
  | .named _ as, h => by
      refine .named fun a ha => ?_
      exact settled_of_wildcardFree a ((TypeExpr.areWildcardFree_iff as).mp h a ha)
  | .union ms, h => by
      refine .union fun m hm => ?_
      exact settled_of_wildcardFree m ((TypeExpr.areWildcardFree_iff ms).mp h m hm)

/-- Type arguments without wildcards match themselves. -/
theorem argsMatch_of_wildcardFree
    {as : List TypeExpr} (h : TypeExpr.areWildcardFree as = true) :
    argsMatch reg as as = true := by
  refine argsMatch_self fun a ha => ?_
  exact (settled_of_wildcardFree a ((TypeExpr.areWildcardFree_iff as).mp h a ha)).fitsItself.argFits

end Typing

/-! ### Values and their parts -/

/-- The type arguments that a value was given. -/
def Value.recordedArgs : Value → List TypeExpr
  | .object o => o.typeArgs
  | .collection c => c.typeArgs
  | .channel _ element => element.toList
  | _ => []

/-- What is asked of a value and its parts: it is no definition of a class or interface, its class is
not called like a builtin type, and no wildcard stands in its type arguments. -/
structure Value.IsOrdinary (v : Value) : Prop where
  not_classDef : ∀ c, v ≠ .classDef c
  not_interfaceDef : ∀ i, v ≠ .interfaceDef i
  proper : ∀ o, v = .object o → typeAliases.lookup o.cls.name.toLower = none
  wildcardFree : TypeExpr.areWildcardFree v.recordedArgs = true

namespace Heap

variable {h : Heap} {v w : Value} {vs : List Value} {t u : TypeExpr} {ts args : List TypeExpr}
variable {c c' : Collection} {n m : Nat} {slots : List (List Value)}

/-- The values that tell the type of a value: the elements of a collection without type arguments. -/
def parts (h : Heap) : Value → List Value
  | .collection c =>
    if areAllAny c.typeArgs then ((h.elementsByArg (.collection c)).getD []).flatten else []
  | _ => []

/-- A value tells the type of another, directly or by way of others. -/
def Tells (h : Heap) : Value → Value → Prop :=
  Relation.TransGen fun v w => w ∈ h.parts v

/-- A value whose parts are not parts of themselves. -/
def Acyclic (h : Heap) (v : Value) : Prop :=
  ¬ h.Tells v v ∧ ∀ w, h.Tells v w → ¬ h.Tells w w

/-- A value and its parts are ordinary. -/
def Ordinary (h : Heap) (v : Value) : Prop :=
  v.IsOrdinary ∧ ∀ w, h.Tells v w → w.IsOrdinary

theorem Ordinary.part
    (hv : h.Ordinary v) (hw : w ∈ h.parts v) :
    h.Ordinary w :=
  ⟨hv.2 w (.single hw), fun u hu => hv.2 u (.head hw hu)⟩

theorem Ordinary.of_parts
    (hv : v.IsOrdinary) (hparts : ∀ w ∈ h.parts v, h.Ordinary w) :
    h.Ordinary v := by
  refine ⟨hv, fun w hw => ?_⟩
  obtain ⟨u, hu, hrest⟩ := Relation.TransGen.head'_iff.mp hw
  rcases Relation.reflTransGen_iff_eq_or_transGen.mp hrest with rfl | hrest
  · exact (hparts w hu).1
  · exact (hparts u hu).2 w hrest

theorem Acyclic.part
    (hv : h.Acyclic v) (hw : w ∈ h.parts v) :
    h.Acyclic w :=
  ⟨hv.2 w (.single hw), fun u hu => hv.2 u (.head hw hu)⟩

/-! ### Depth -/

/-- The parts of a value are nested less deep than a bound. -/
inductive NestsWithin (h : Heap) : Nat → Value → Prop
  | mk {n : Nat} {v : Value} (hparts : ∀ w ∈ h.parts v, NestsWithin h n w) :
      NestsWithin h (n + 1) v

/-- What has parts is a collection of the heap without type arguments. -/
theorem exists_collection_of_mem_parts
    (hw : w ∈ h.parts v) :
    ∃ c, v = .collection c ∧ areAllAny c.typeArgs = true ∧ c.id < h.collections.size := by
  cases v with
  | collection c =>
      rw [parts] at hw
      split at hw
      · next hany =>
          refine ⟨c, rfl, hany, ?_⟩
          by_contra hout
          have hdefault : h.collection c.id = default := by
            simp [collection, Array.getD, hout]
          rw [elementsByArg, hdefault] at hw
          simp [default] at hw
      · cases hw
  | _ =>
      cases hw

/-- Collections without type arguments that are one have the same parts. -/
theorem parts_eq_of_id
    (hc : areAllAny c.typeArgs = true) (hc' : areAllAny c'.typeArgs = true) (hid : c.id = c'.id) :
    h.parts (.collection c) = h.parts (.collection c') := by
  rw [parts, parts, if_pos hc, if_pos hc', elementsByArg, elementsByArg, hid]

theorem elements_mem_parts
    (hany : areAllAny c.typeArgs = true) (hslots : h.elementsByArg (.collection c) = some slots)
    {slot : List Value} (hslot : slot ∈ slots) (hv : v ∈ slot) :
    v ∈ h.parts (.collection c) := by
  rw [parts, if_pos hany, hslots]
  exact List.mem_flatten.mpr ⟨slot, hslot, hv⟩

/-- The type arguments that slots of elements share. -/
def sharedArgs (f : Value → TypeExpr) (slots : List (List Value)) : List TypeExpr :=
  (slots.mapM fun slot => commonType (slot.map f)).getD []

theorem sharedArgs_congr
    {f g : Value → TypeExpr} (hfg : ∀ slot ∈ slots, ∀ v ∈ slot, f v = g v) :
    sharedArgs f slots = sharedArgs g slots := by
  have hmap : slots.map (List.map f) = slots.map (List.map g) :=
    List.map_congr_left fun slot hslot => List.map_congr_left (hfg slot hslot)
  have hmapM (f : Value → TypeExpr) :
      slots.mapM (fun slot => commonType (slot.map f)) =
        (slots.map (List.map f)).mapM commonType := by
    rw [List.mapM_map]
    rfl
  rw [sharedArgs, sharedArgs, hmapM, hmapM, hmap]

theorem runtimeTypeWithin_given
    (hany : areAllAny c.typeArgs = false) :
    h.runtimeTypeWithin (n + 1) (.collection c) = .named c.kind.name c.typeArgs := by
  have hempty : c.typeArgs.isEmpty = false := by
    cases hargs : c.typeArgs with
    | nil =>
        rw [hargs] at hany
        cases hany
    | cons a as =>
        rfl
  simp [runtimeTypeWithin, hempty, hany]

theorem runtimeTypeWithin_shared
    (hany : areAllAny c.typeArgs = true) (hslots : h.elementsByArg (.collection c) = some slots) :
    h.runtimeTypeWithin (n + 1) (.collection c) =
      .named c.kind.name (sharedArgs (h.runtimeTypeWithin n) slots) := by
  simp [runtimeTypeWithin, hany, hslots, sharedArgs]

theorem exists_elementsByArg
    (h : Heap) (c : Collection) :
    ∃ slots, h.elementsByArg (.collection c) = some slots := by
  rw [elementsByArg]
  cases h.collection c.id with
  | items | entries =>
      exact ⟨_, rfl⟩

/-- Deeper than a value nests nothing is left to tell its type. -/
theorem NestsWithin.runtimeTypeWithin_eq
    (hv : h.NestsWithin n v) (hle : n ≤ m) :
    h.runtimeTypeWithin m v = h.runtimeTypeWithin n v := by
  induction hv generalizing m with
  | @mk n v hparts ih =>
      obtain ⟨m, rfl⟩ := Nat.exists_eq_succ_of_ne_zero (Nat.ne_zero_of_lt hle)
      cases v with
      | collection c =>
          cases hany : areAllAny c.typeArgs with
          | false =>
              rw [runtimeTypeWithin_given hany, runtimeTypeWithin_given hany]
          | true =>
              obtain ⟨slots, hslots⟩ := h.exists_elementsByArg c
              rw [runtimeTypeWithin_shared hany hslots, runtimeTypeWithin_shared hany hslots]
              refine congrArg _ (sharedArgs_congr fun slot hslot w hw => ?_)
              exact ih w (elements_mem_parts hany hslots hslot hw) (Nat.le_of_succ_le_succ hle)
      | _ =>
          rfl

/-- A collection with parts is known by its number. -/
def collectionId : Value → Nat
  | .collection c => c.id
  | _ => 0

theorem parts_placed (h : Heap) :
    Placed h.parts (fun _ => True) collectionId h.collections.size where
  part _ _ _ _ := trivial
  lt v _ hne := by
    obtain ⟨w, hw⟩ := List.exists_mem_of_ne_nil _ hne
    obtain ⟨c, rfl, -, hlt⟩ := exists_collection_of_mem_parts hw
    exact hlt
  parts_eq v w _ _ hv hw hid := by
    obtain ⟨_, hv⟩ := List.exists_mem_of_ne_nil _ hv
    obtain ⟨_, hw⟩ := List.exists_mem_of_ne_nil _ hw
    obtain ⟨c, rfl, hany, -⟩ := exists_collection_of_mem_parts hv
    obtain ⟨c', rfl, hany', -⟩ := exists_collection_of_mem_parts hw
    exact parts_eq_of_id hany hany' hid

theorem NestsWithin.of_endsWithin
    (hv : EndsWithin h.parts n v) :
    h.NestsWithin n v := by
  induction hv with
  | mk _ ih => exact .mk ih

/-- The depth that the heap allows is enough for what is not part of itself. -/
theorem nestsWithin_of_acyclic
    (hv : h.Acyclic v) :
    h.NestsWithin h.depthLimit v := by
  have hacyclic : AcyclicFrom h.parts v := hv
  refine .of_endsWithin ((endsWithin_of_acyclic h.parts_placed trivial hacyclic).mono ?_)
  rw [depthLimit]
  omega

/-- A collection that is not part of itself has the type arguments that it was given, or else those
that its elements share. -/
theorem runtimeType_collection
    (hc : h.Acyclic (.collection c)) (hslots : h.elementsByArg (.collection c) = some slots) :
    h.runtimeType (.collection c) = .named c.kind.name
      (if areAllAny c.typeArgs then (slots.mapM h.elementType?).getD [] else c.typeArgs) := by
  have hlimit : h.depthLimit = h.depthLimit - 1 + 1 := rfl
  rw [runtimeType, hlimit]
  cases hany : areAllAny c.typeArgs with
  | false =>
      rw [runtimeTypeWithin_given hany, if_neg (by simp)]
  | true =>
      rw [runtimeTypeWithin_shared hany hslots, if_pos rfl]
      have hnests := nestsWithin_of_acyclic hc
      rw [hlimit] at hnests
      cases hnests with
      | mk hparts =>
          refine congrArg _ (sharedArgs_congr fun slot hslot w hw => ?_)
          have hw := hparts w (elements_mem_parts hany hslots hslot hw)
          exact (hw.runtimeTypeWithin_eq (Nat.sub_le _ 1)).symm

/-! ### Sharing -/

/-- A value is of a type; and if that is the type of integers or of floats, it is a number. -/
structure Bears (h : Heap) (v : Value) (t : TypeExpr) : Prop where
  isInstance : h.instanceOf v t = true
  number : ∀ name, t = .named name [] → canonicalName name = "Int" ∨ canonicalName name = "Float" →
    headFits v "Number" = true

/-- The types that occur in a list, each once. -/
theorem mem_distinct
    (seen ts : List TypeExpr) :
    t ∈ ts.foldl (fun seen t => if seen.contains t then seen else seen ++ [t]) seen ↔
      t ∈ seen ∨ t ∈ ts := by
  induction ts generalizing seen with
  | nil =>
      simp
  | cons u us ih =>
      rw [List.foldl_cons, ih]
      split
      · next hmem =>
          obtain ⟨x, hx, heq⟩ := List.contains_iff_exists_mem_beq.mp hmem
          have hsame : u = x := TypeExpr.eq_of_same u x heq
          subst hsame
          grind
      · grind

/-- Of two names that are those of integers and floats each is one of them. -/
theorem eq_of_mem_names
    {names : List String} {name : String} (htwo : names.length = 2) (hint : "Int" ∈ names)
    (hfloat : "Float" ∈ names) (hname : name ∈ names) :
    name = "Int" ∨ name = "Float" := by
  obtain ⟨a, b, rfl⟩ := List.length_eq_two.mp htwo
  have hne : ("Int" : String) ≠ "Float" := by decide
  grind

theorem exists_of_isIntOrFloat
    (hts : TypeExpr.isIntOrFloat ts = true) (ht : t ∈ ts) :
    ∃ name, t = .named name [] ∧ (canonicalName name = "Int" ∨ canonicalName name = "Float") := by
  simp only [TypeExpr.isIntOrFloat, Bool.and_eq_true, beq_iff_eq, List.contains_iff_mem,
    and_assoc] at hts
  obtain ⟨htwo, hnames, hint, hfloat⟩ := hts
  have hall := List.filterMap_length_eq_length.mp (hnames.trans htwo.symm) t ht
  obtain ⟨name, hname⟩ := Option.isSome_iff_exists.mp hall
  have hmem := eq_of_mem_names hnames hint hfloat (List.mem_filterMap.mpr ⟨t, ht, hname⟩)
  split at hname
  · next plain =>
      cases hname
      exact ⟨plain, rfl, hmem⟩
  · cases hname

theorem instanceOfAny_iff :
    h.instanceOfAny v ts = true ↔ ∃ t ∈ ts, h.instanceOf v t = true := by
  induction ts with
  | nil =>
      simp [instanceOfAny]
  | cons t ts ih =>
      simp [instanceOfAny, ih]

/-- A type is what different types have in common: the only one, the union, or that of numbers. -/
inductive Shares : List TypeExpr → TypeExpr → Prop
  | one (t : TypeExpr) :
      Shares [t] t
  | numbers {ts : List TypeExpr} (hts : TypeExpr.isIntOrFloat ts = true) :
      Shares ts (.simple "Number")
  | union (ts : List TypeExpr) :
      Shares ts (.union ts)

theorem shares_of_commonType
    (hu : commonType ts = some u) :
    ∃ us, (∀ t, t ∈ us ↔ t ∈ ts) ∧ Shares us u := by
  have hmem (t : TypeExpr) := mem_distinct (t := t) [] ts
  rw [commonType] at hu
  revert hu hmem
  generalize ts.foldl _ [] = us
  intro hu hmem
  refine ⟨us, by simpa using hmem, ?_⟩
  split at hu
  · cases hu
  · cases hu
    exact .one _
  · split at hu
    · next hnumbers =>
        cases hu
        exact .numbers hnumbers
    · cases hu
      exact .union us

/-- A value is of the type that its own shares with others. -/
theorem Bears.of_commonType
    (hv : h.Bears v t) (ht : t ∈ ts) (hu : commonType ts = some u) :
    h.instanceOf v u = true := by
  obtain ⟨us, hmem, hshares⟩ := shares_of_commonType hu
  rw [← hmem] at ht
  cases hshares with
  | one =>
      cases List.mem_singleton.mp ht
      exact hv.isInstance
  | numbers hnumbers =>
      obtain ⟨name, rfl, hname⟩ := exists_of_isIntOrFloat hnumbers ht
      have hhead := hv.number name rfl hname
      have hcanonical : canonicalName "Number" = "Number" := by decide +kernel
      simp [TypeExpr.simple, instanceOf, namedInstance, hcanonical, hhead]
  | union us =>
      rw [instanceOf]
      exact instanceOfAny_iff.mpr ⟨t, ht, hv.isInstance⟩

theorem commonType_ne_none
    (hts : ts ≠ []) :
    ∃ u, commonType ts = some u := by
  obtain ⟨t, ts, rfl⟩ := List.exists_cons_of_ne_nil hts
  have hmem := (mem_distinct [] (t :: ts)).mpr (.inr List.mem_cons_self)
  rw [commonType]
  revert hmem
  generalize (t :: ts).foldl _ [] = us
  intro hmem
  split
  · cases hmem
  · exact ⟨_, rfl⟩
  · split
    · exact ⟨_, rfl⟩
    · exact ⟨_, rfl⟩

theorem exists_of_mapM_cons
    {α β : Type} {f : α → Option β} {x : α} {xs : List α} {ys : List β}
    (hys : (x :: xs).mapM f = some ys) :
    ∃ y rest, f x = some y ∧ xs.mapM f = some rest ∧ ys = y :: rest := by
  rw [List.mapM_cons] at hys
  obtain ⟨y, hy, hys⟩ := Option.bind_eq_some_iff.mp hys
  obtain ⟨rest, hrest, hys⟩ := Option.bind_eq_some_iff.mp hys
  exact ⟨y, rest, hy, hrest, (Option.some.inj hys).symm⟩

/-- Values in slots are of the types that the slots share. -/
theorem slotsMatch_of_mapM
    {f : Value → TypeExpr} (hbears : ∀ slot ∈ slots, ∀ v ∈ slot, h.Bears v (f v))
    (hargs : slots.mapM (fun slot => commonType (slot.map f)) = some args) :
    h.slotsMatch slots args = true := by
  induction slots generalizing args with
  | nil =>
      cases hargs
      rfl
  | cons slot slots ih =>
      obtain ⟨t, ts, ht, hts, rfl⟩ := exists_of_mapM_cons hargs
      rw [slotsMatch, Bool.and_eq_true, List.all_eq_true]
      refine ⟨fun v hv => ?_, ih (fun slot hslot => hbears slot (.tail _ hslot)) hts⟩
      exact (hbears slot (.head _) v hv).of_commonType (List.mem_map_of_mem hv) ht

/-! ### The law -/

theorem headFits_any
    (v : Value) :
    headFits v "Any" = true := by
  simp [headFits]

/-- A value is of a type without arguments if it goes by its name. -/
theorem Bears.simple
    {name : String} (hhead : headFits v (canonicalName name) = true)
    (hnumber : canonicalName name = "Int" ∨ canonicalName name = "Float" →
      headFits v "Number" = true) :
    h.Bears v (.simple name) where
  isInstance := by
    simp [TypeExpr.simple, instanceOf, namedInstance, hhead]
  number := fun name' heq hname => by
    cases heq
    exact hnumber hname

/-- The names that the values without type arguments go by are their own canonical spelling. -/
theorem canonicalName_kinds :
    ∀ name ∈ ["Nil", "Bool", "Int", "Float", "String", "Array", "Map", "Function", "Thread",
      "Channel", "List", "Set", "Deque", "Promise", "CompletableFuture", "Sys", "Math", "Any",
      "Number"], canonicalName name = name := by
  decide +kernel

/-- An object goes by the name of its class. -/
theorem headFits_object
    {o : Instance} (ho : (Value.object o).IsOrdinary) :
    canonicalName o.cls.name = o.cls.name ∧ headFits (.object o) o.cls.name = true := by
  have hproper := ho.proper o rfl
  refine ⟨by rw [canonicalName, hproper, Option.getD_none], ?_⟩
  simp [headFits, ClassDef.isA, ClassDef.layers, ClassDef.layerIs, ClassDef.name]

/-- What type arguments a value was given they match. -/
theorem instanceOf_given
    {name : String} (hhead : headFits v (canonicalName name) = true)
    (hargs : argsSeenAs v (canonicalName name) = some args)
    (hfree : TypeExpr.areWildcardFree args = true) :
    h.instanceOf v (.named name args) = true := by
  simp [instanceOf, namedInstance, hhead, hargs, Typing.argsMatch_of_wildcardFree hfree]

theorem runtimeTypeWithin_object
    (h : Heap) (n : Nat) (o : Instance) :
    h.runtimeTypeWithin (n + 1) (.object o) = .named o.cls.name o.shownArgs := by
  rw [runtimeTypeWithin, Instance.shownArgs]
  cases o.cls.kind <;> cases areAllAny o.typeArgs <;> rfl

/-- An object of a class sees the type arguments that it shows. -/
theorem argsSeenAs_object
    {o : Instance} (hshown : o.shownArgs ≠ []) :
    o.shownArgs = o.typeArgs ∧ argsSeenAs (.object o) o.cls.name = some o.typeArgs := by
  unfold Instance.shownArgs at hshown ⊢
  split at hshown
  · next hgiven =>
      rw [if_pos hgiven]
      refine ⟨rfl, ?_⟩
      rw [argsSeenAs]
      cases o.cls.ancestors with
      | nil | cons =>
          simp [ClassLayer.argsAlong, ClassDef.name, hgiven.2]
  · exact absurd rfl hshown

theorem bears_object
    {o : Instance} (ho : (Value.object o).IsOrdinary) :
    h.Bears (.object o) (.named o.cls.name o.shownArgs) := by
  obtain ⟨hname, hhead⟩ := headFits_object ho
  rw [← hname] at hhead
  by_cases hshown : o.shownArgs = []
  · rw [hshown]
    refine .simple hhead fun hnumber => ?_
    have hproper := ho.proper o rfl
    rw [hname] at hnumber
    rcases hnumber with hint | hfloat
    · rw [hint] at hproper
      exact absurd hproper (by decide +kernel)
    · rw [hfloat] at hproper
      exact absurd hproper (by decide +kernel)
  · obtain ⟨heq, hargs⟩ := argsSeenAs_object hshown
    rw [← hname] at hargs
    refine ⟨instanceOf_given hhead (heq ▸ hargs) (heq ▸ ho.wildcardFree), fun name hplain => ?_⟩
    exact absurd (TypeExpr.named.inj hplain).2 hshown

theorem canonicalName_kind
    (kind : CollectionKind) :
    canonicalName kind.name = kind.name := by
  cases kind <;> exact canonicalName_kinds _ (by simp [CollectionKind.name])

theorem headFits_collection
    (c : Collection) :
    headFits (.collection c) (canonicalName c.kind.name) = true := by
  rw [canonicalName_kind]
  simp [headFits]

/-- A collection with type arguments is of its type, and so is one without, whose elements are of the
types that they share. -/
theorem bears_collection
    (hc : (Value.collection c).IsOrdinary)
    (hparts : ∀ w ∈ h.parts (.collection c), h.Bears w (h.runtimeTypeWithin n w)) :
    h.Bears (.collection c) (h.runtimeTypeWithin (n + 1) (.collection c)) := by
  have hhead := headFits_collection c
  have hnumber (name : String) (args : List TypeExpr)
      (heq : TypeExpr.named c.kind.name args = .named name [])
      (hname : canonicalName name = "Int" ∨ canonicalName name = "Float") :
      headFits (.collection c) "Number" = true := by
    cases heq
    rw [canonicalName_kind] at hname
    cases hkind : c.kind <;> simp [hkind, CollectionKind.name] at hname
  cases hany : areAllAny c.typeArgs with
  | false =>
      rw [runtimeTypeWithin_given hany]
      have hargs : argsSeenAs (.collection c) (canonicalName c.kind.name) = some c.typeArgs := by
        simp [argsSeenAs, hany]
      exact ⟨instanceOf_given hhead hargs hc.wildcardFree, fun name => hnumber name _⟩
  | true =>
      obtain ⟨slots, hslots⟩ := h.exists_elementsByArg c
      rw [runtimeTypeWithin_shared hany hslots]
      refine ⟨?_, fun name => hnumber name _⟩
      rw [sharedArgs]
      cases hargs : slots.mapM fun slot => commonType (slot.map (h.runtimeTypeWithin n)) with
      | none =>
          simp [instanceOf, namedInstance, hhead]
      | some args =>
          have hmatch : h.slotsMatch slots args = true := by
            refine slotsMatch_of_mapM (fun slot hslot w hw => ?_) hargs
            exact hparts w (elements_mem_parts hany hslots hslot hw)
          simp [instanceOf, namedInstance, hhead, argsSeenAs, hany, hslots, hmatch]

theorem bears_channel
    {id : Nat} {element : Option TypeExpr} (hv : (Value.channel id element).IsOrdinary) :
    h.Bears (.channel id element) (h.runtimeTypeWithin (n + 1) (.channel id element)) := by
  have hname : canonicalName "Channel" = "Channel" := canonicalName_kinds _ (by simp)
  have hhead : headFits (.channel id element) (canonicalName "Channel") = true := by
    rw [hname]
    simp [headFits]
  cases element with
  | none =>
      refine .simple hhead fun hnumber => ?_
      simp [hname] at hnumber
  | some t =>
      refine ⟨instanceOf_given hhead rfl hv.wildcardFree, fun name hplain => ?_⟩
      cases hplain

/-- A value of a kind of its own is of the type of that name. -/
theorem bears_kind
    (hname : canonicalName v.kindName = v.kindName) (hhead : headFits v v.kindName = true)
    (hnumber : v.kindName = "Int" ∨ v.kindName = "Float" → headFits v "Number" = true) :
    h.Bears v (.simple v.kindName) :=
  .simple (hname.symm ▸ hhead) (hname.symm ▸ hnumber)

/-- Values are of their runtime types, down to any depth. -/
theorem bears_runtimeTypeWithin
    (hv : h.Ordinary v) (n : Nat) :
    h.Bears v (h.runtimeTypeWithin n v) := by
  induction n generalizing v with
  | zero =>
      have hname : canonicalName "Any" = "Any" := canonicalName_kinds _ (by simp)
      refine .simple (hname.symm ▸ headFits_any v) fun hnumber => ?_
      simp [hname] at hnumber
  | succ n ih =>
      cases v with
      | object o =>
          rw [runtimeTypeWithin_object]
          exact bears_object hv.1
      | collection c =>
          exact bears_collection hv.1 fun w hw => ih (hv.part hw)
      | channel id element =>
          exact bears_channel hv.1
      | classDef c =>
          exact absurd rfl (hv.1.not_classDef c)
      | interfaceDef i =>
          exact absurd rfl (hv.1.not_interfaceDef i)
      | future id kind =>
          have hname : canonicalName kind.name = kind.name := by
            cases kind <;> exact canonicalName_kinds _ (by simp [FutureKind.name])
          refine bears_kind hname (by simp [headFits, Value.kindName]) ?_
          cases kind <;> simp [Value.kindName, FutureKind.name]
      | module m =>
          have hname : canonicalName m.name = m.name := by
            cases m <;> exact canonicalName_kinds _ (by simp [Module.name])
          refine bears_kind hname (by simp [headFits, Value.kindName]) ?_
          cases m <;> simp [Value.kindName, Module.name]
      | _ =>
          exact bears_kind (canonicalName_kinds _ (by simp [Value.kindName]))
            (by simp [headFits, Value.kindName]) (by simp [headFits, Value.kindName])

/-- Every value is of its own runtime type, and values are of the type that they share. -/
structure TypesItself (h : Heap) (v : Value) (vs : List Value) : Prop where
  runtimeType : h.instanceOf v (h.runtimeType v) = true
  elementType : ∃ t, h.elementType? (v :: vs) = some t ∧
    ∀ w ∈ v :: vs, h.instanceOf w t = true

/-- Every ordinary value is of its own runtime type, and of the type that it shares with others. -/
theorem instanceOf_runtimeType
    (hvs : ∀ w ∈ v :: vs, h.Ordinary w) :
    h.TypesItself v vs where
  runtimeType := (bears_runtimeTypeWithin (hvs v (.head _)) h.depthLimit).isInstance
  elementType := by
    obtain ⟨t, ht⟩ : ∃ t, commonType ((v :: vs).map h.runtimeType) = some t :=
      commonType_ne_none (by simp)
    refine ⟨t, ht, fun w hw => ?_⟩
    exact (bears_runtimeTypeWithin (hvs w hw) h.depthLimit).of_commonType
      (List.mem_map_of_mem hw) ht

/-- A list of numbers in a list, and a box of integers. -/
theorem instanceOf_runtimeType_numbers :
    let numbers : Value := .collection ⟨0, .list, []⟩
    let nested : Value := .collection ⟨1, .list, []⟩
    let box : Value := .object ⟨0, ⟨boxLayer, []⟩, [.simple "Int"], none⟩
    let h : Heap :=
      { Heap.empty with
        collections := #[.items #[.int 1, .float (.ofInt64 2)], .items #[numbers, .str "a"]] }
    (∀ w ∈ [nested, box], h.Ordinary w) ∧ h.TypesItself nested [box] ∧
      h.runtimeType nested =
        .named "List" [.union [.named "List" [.simple "Number"], .simple "String"]] := by
  intro numbers nested box h
  have hpair {P : Value → Prop} {v w : Value} (hv : P v) (hw : P w) : ∀ u ∈ [v, w], P u := by
    simp [hv, hw]
  have hplain (v : Value) (hv : v.IsOrdinary) (hparts : h.parts v = []) : h.Ordinary v :=
    .of_parts hv (by simp [hparts])
  have hnumbers : h.Ordinary numbers := by
    refine .of_parts ⟨nofun, nofun, nofun, rfl⟩ ?_
    rw [show h.parts numbers = [.int 1, .float (.ofInt64 2)] from rfl]
    exact hpair (hplain _ ⟨nofun, nofun, nofun, rfl⟩ rfl) (hplain _ ⟨nofun, nofun, nofun, rfl⟩ rfl)
  have hnested : h.Ordinary nested := by
    refine .of_parts ⟨nofun, nofun, nofun, rfl⟩ ?_
    rw [show h.parts nested = [numbers, .str "a"] from rfl]
    exact hpair hnumbers (hplain _ ⟨nofun, nofun, nofun, rfl⟩ rfl)
  have hbox : h.Ordinary box := by
    refine hplain box ⟨nofun, nofun, fun o ho => ?_, rfl⟩ rfl
    rw [← Value.object.inj ho]
    decide +kernel
  have hboth : ∀ w ∈ [nested, box], h.Ordinary w := hpair hnested hbox
  exact ⟨hboth, instanceOf_runtimeType hboth, TypeExpr.eq_of_same _ _ (by decide +kernel)⟩

end Heap
end ScriptEngine
