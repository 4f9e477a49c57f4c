import Mathlib
import ScriptEngine.Heap.Display

/-!
# Texts of plain values

Plain values are nil, booleans, integers, strings, the constants of enums, and records of plain
values.  Two records of a class are equal when their components are, and the text of a record lists
the texts of its components.

**Depth.**  Equality and texts go down to a depth that the heap allows.  Records are nested no
deeper than there are instances, so this is deep enough for every plain value (`Plain.within`).

**Reading.**  The text of a string in a record stands there without quotes.  Where no such string
has a mark of the notation or is the text of something else, and the names do not mislead, a text
can be read back, whatever comes after it (`Legible.readsBack`): texts tell values apart.
-/

namespace ScriptEngine

namespace Heap

variable {h : Heap} {K : Set Value} {o o' : Instance} {a b v : Value} {n m : Nat}

/-! ### Plain values -/

/-- An instance is one of the heap. -/
structure Owns (h : Heap) (o : Instance) : Prop where
  id_lt : o.id < h.objects.size
  self_eq : (h.object o.id).self = o

/-- Values that are written as numbers or as words. -/
inductive Literal : Value → Prop
  | nil : Literal .nil
  | bool (b : Bool) : Literal (.bool b)
  | int (i : Int64) : Literal (.int i)

/-- Values without parts. -/
inductive Simple (h : Heap) : Value → Prop
  | literal {v : Value} : Literal v → Simple h v
  | str (s : String) : Simple h (.str s)
  | constant {o : Instance} {name : String} {ordinal : Nat} :
      h.Owns o → o.cls.kind = .enumeration → o.constant = some (name, ordinal) →
      Simple h (.object o)

/-- An instance is a record with some parts, one for each component. -/
structure RecordOf (h : Heap) (o : Instance) (parts : List Value) : Prop where
  kind_eq : o.cls.kind = .record
  constant_eq : o.constant = none
  parts_eq : List.Forall₂ (fun c v => h.field? o c.name = some v) o.cls.own.components parts

theorem RecordOf.unique
    {parts parts' : List Value} (ho : h.RecordOf o parts) (ho' : h.RecordOf o parts') :
    parts = parts' := by
  refine List.right_unique_forall₂' (fun c x y hx hy => ?_) ho.parts_eq ho'.parts_eq
  rw [hx, Option.some.injEq] at hy
  exact hy

/-- Values that are built of records and of values without parts, down to a depth. -/
inductive PlainWithin (h : Heap) : Nat → Value → Prop
  | simple {n : Nat} {v : Value} : h.Simple v → PlainWithin h (n + 1) v
  | record {n : Nat} {o : Instance} {parts : List Value} :
      h.Owns o → h.RecordOf o parts → (∀ v ∈ parts, PlainWithin h n v) →
      PlainWithin h (n + 1) (.object o)

/-- Values that are built of records and of values without parts. -/
def Plain (h : Heap) (v : Value) : Prop := ∃ n, h.PlainWithin n v

theorem PlainWithin.mono
    (hv : h.PlainWithin n v) (hle : n ≤ m) :
    h.PlainWithin m v := by
  induction hv generalizing m with
  | simple hv =>
      obtain ⟨m, rfl⟩ := Nat.exists_eq_succ_of_ne_zero (Nat.ne_zero_of_lt hle)
      exact .simple hv
  | record ho hrecord _ ih =>
      obtain ⟨m, rfl⟩ := Nat.exists_eq_succ_of_ne_zero (Nat.ne_zero_of_lt hle)
      exact .record ho hrecord fun v hv => ih v hv (Nat.le_of_succ_le_succ hle)

/-! ### Depth -/

open Classical in
/-- The instances that are plain down to a depth. -/
noncomputable def plainObjects (h : Heap) (n : Nat) : Finset Nat :=
  {id ∈ Finset.range h.objects.size | h.PlainWithin n (.object (h.object id).self)}

open Classical in
theorem mem_plainObjects {id : Nat} :
    id ∈ h.plainObjects n ↔
      id < h.objects.size ∧ h.PlainWithin n (.object (h.object id).self) := by
  rw [plainObjects, Finset.mem_filter, Finset.mem_range]

theorem Owns.mem_plainObjects (ho : h.Owns o) :
    o.id ∈ h.plainObjects n ↔ h.PlainWithin n (.object o) := by
  rw [Heap.mem_plainObjects, ho.self_eq]
  exact and_iff_right ho.id_lt

theorem plainObjects_mono (h : Heap) : Monotone h.plainObjects := by
  intro n m hle id hid
  rw [mem_plainObjects] at hid ⊢
  exact ⟨hid.1, hid.2.mono hle⟩

/-- When one level more adds no instance, it adds no value at the next. -/
theorem PlainWithin.of_stable
    (hstable : h.plainObjects (n + 2) ⊆ h.plainObjects (n + 1)) (hv : h.PlainWithin (n + 2) v) :
    h.PlainWithin (n + 1) v := by
  cases hv with
  | simple hv =>
      exact .simple hv
  | record ho hrecord hall =>
      exact ho.mem_plainObjects.mp
        (hstable (ho.mem_plainObjects.mpr (.record ho hrecord hall)))

theorem plainObjects_stable
    (hstable : h.plainObjects (n + 2) ⊆ h.plainObjects (n + 1)) :
    h.plainObjects (n + 3) ⊆ h.plainObjects (n + 2) := by
  intro id hid
  rw [mem_plainObjects] at hid ⊢
  refine ⟨hid.1, ?_⟩
  cases hid.2 with
  | simple hv =>
      exact .simple hv
  | record ho hrecord hall =>
      exact .record ho hrecord fun v hv => (hall v hv).of_stable hstable

/-- Records are nested no deeper than there are instances. -/
theorem plainObjects_subset (h : Heap) (n : Nat) :
    h.plainObjects n ⊆ h.plainObjects (h.objects.size + 1) := by
  let count (n : Nat) := (h.plainObjects (n + 1)).card
  have hcount : Monotone count := fun n m hle =>
    Finset.card_le_card (h.plainObjects_mono (Nat.add_le_add_right hle 1))
  have hbound (n : Nat) : count n ≤ h.objects.size := by
    have hsubset : h.plainObjects (n + 1) ⊆ Finset.range h.objects.size := fun id hid =>
      Finset.mem_range.mpr (mem_plainObjects.mp hid).1
    exact (Finset.card_le_card hsubset).trans_eq (Finset.card_range _)
  have hstay (n : Nat) (heq : count n = count (n + 1)) : count (n + 1) = count (n + 2) := by
    have hsubset := h.plainObjects_mono (Nat.le_succ (n + 1))
    have hsame := Finset.eq_of_subset_of_card_le hsubset heq.ge
    exact Nat.le_antisymm (hcount (Nat.le_succ _))
      (Finset.card_le_card (plainObjects_stable hsame.ge))
  have hlast := Nat.stabilises_of_monotone hcount hbound hstay (Nat.le_add_left _ n)
  have hsame := Finset.eq_of_subset_of_card_le
    (h.plainObjects_mono (Nat.add_le_add_right (Nat.le_add_left h.objects.size n) 1)) hlast.le
  exact hsame ▸ h.plainObjects_mono (by omega)

/-- The depth that the heap allows is enough for every plain value. -/
theorem Plain.within (hv : h.Plain v) : h.PlainWithin h.depthLimit v := by
  obtain ⟨n, hn⟩ := hv
  have hlimit : h.objects.size + 1 ≤ h.depthLimit := by
    rw [depthLimit]
    omega
  cases hn with
  | simple hv =>
      exact (PlainWithin.simple (n := 0) hv).mono (by omega)
  | record ho hrecord hall =>
      have hmem := ho.mem_plainObjects.mpr (.record ho hrecord hall)
      exact (ho.mem_plainObjects.mp (h.plainObjects_subset _ hmem)).mono hlimit

/-! ### Texts and equality -/

/-- A class is known by its number. -/
def ClassesApart (h : Heap) : Prop :=
  ∀ o o', h.Owns o → h.Owns o' → o.cls.id = o'.cls.id → o.cls = o'.cls

theorem Owns.eq_of_id (ho : h.Owns o) (ho' : h.Owns o') (hid : o.id = o'.id) : o = o' := by
  rw [← ho.self_eq, ← ho'.self_eq, hid]

/-- Two instances are equal if they are one, or records of one class with equal components. -/
theorem equalsWithin_object_iff :
    h.equalsWithin (n + 1) (.object o) (.object o') = true ↔
      o.id = o'.id ∨ o.cls.kind = .record ∧ o.cls.id = o'.cls.id ∧
        ∀ c ∈ o.cls.own.components, ∃ x y,
          h.field? o c.name = some x ∧ h.field? o' c.name = some y ∧
            h.equalsWithin n x y = true := by
  rw [equalsWithin]
  simp only [Bool.or_eq_true, Bool.and_eq_true, beq_iff_eq, List.all_eq_true, and_assoc]
  refine or_congr_right (and_congr_right fun _ => and_congr_right fun _ => ?_)
  refine forall₂_congr fun c _ => ?_
  cases h.field? o c.name <;> cases h.field? o' c.name <;> simp

/-- Two lookups of the same names agree name by name just if what they find agrees in order. -/
theorem forall_lookups_iff
    {α β : Type} {f g : α → Option β} {R : β → β → Prop} {cs : List α} {xs ys : List β}
    (hf : List.Forall₂ (fun c x => f c = some x) cs xs)
    (hg : List.Forall₂ (fun c y => g c = some y) cs ys) :
    (∀ c ∈ cs, ∃ x y, f c = some x ∧ g c = some y ∧ R x y) ↔ List.Forall₂ R xs ys := by
  induction hf generalizing ys with
  | nil =>
      cases hg
      simp
  | cons hx _ ih =>
      cases hg with
      | cons hy hrest =>
          rw [List.forall_mem_cons, List.forall₂_cons, ih hrest, hx, hy]
          simp

/-- Records of one class are equal if they are one or their parts are equal. -/
theorem RecordOf.equalsWithin_iff
    {parts parts' : List Value}
    (ho : h.RecordOf o parts) (ho' : h.RecordOf o' parts') (hcls : o.cls = o'.cls) :
    h.equalsWithin (n + 1) (.object o) (.object o') = true ↔
      o.id = o'.id ∨ List.Forall₂ (fun x y => h.equalsWithin n x y = true) parts parts' := by
  have hparts' := hcls ▸ ho'.parts_eq
  rw [equalsWithin_object_iff, and_iff_right ho.kind_eq, and_iff_right (by rw [hcls]),
    forall_lookups_iff ho.parts_eq hparts']

/-- Instances that are equal have the same class. -/
theorem Owns.cls_eq
    (hclasses : h.ClassesApart) (ho : h.Owns o) (ho' : h.Owns o')
    (heq : h.equalsWithin (n + 1) (.object o) (.object o') = true) :
    o.cls = o'.cls := by
  rcases equalsWithin_object_iff.mp heq with hid | ⟨-, hcls, -⟩
  · rw [ho.eq_of_id ho' hid]
  · exact hclasses o o' ho ho' hcls

/-- A value without parts is equal to itself only. -/
theorem Simple.equalsWithin_iff (ha : h.Simple a) (hb : h.Simple b) :
    h.equalsWithin (n + 1) a b = true ↔ a = b := by
  cases ha with
  | literal ha =>
      cases hb with
      | literal hb => cases ha <;> cases hb <;> simp [equalsWithin]
      | str | constant => cases ha <;> simp [equalsWithin]
  | str =>
      cases hb with
      | literal hb => cases hb <;> simp [equalsWithin]
      | str | constant => simp [equalsWithin]
  | constant ho hkind _ =>
      cases hb with
      | literal hb => cases hb <;> simp [equalsWithin]
      | str => simp [equalsWithin]
      | constant ho' _ _ =>
          rw [equalsWithin_object_iff, hkind]
          simp only [reduceCtorEq, false_and, or_false, Value.object.injEq]
          exact ⟨ho.eq_of_id ho', fun h => by rw [h]⟩

/-- A value without parts is not equal to a record. -/
theorem Simple.not_equalsWithin
    {parts : List Value} (hclasses : h.ClassesApart)
    (ha : h.Simple a) (ho : h.Owns o) (hrecord : h.RecordOf o parts) :
    h.equalsWithin (n + 1) a (.object o) ≠ true ∧ h.equalsWithin (n + 1) (.object o) a ≠ true := by
  cases ha with
  | literal ha =>
      cases ha <;> simp [equalsWithin]
  | str =>
      simp [equalsWithin]
  | constant ho' hkind _ =>
      have hne {c : ClassDef} (hcls : c = o.cls) (hc : c.kind = .enumeration) : False := by
        rw [hcls, hrecord.kind_eq] at hc
        nomatch hc
      exact ⟨fun heq => hne (ho'.cls_eq hclasses ho heq) hkind,
        fun heq => hne (ho.cls_eq hclasses ho' heq).symm hkind⟩

/-! ### Texts -/

/-- The text of a component from the text of its value. -/
def partText (c : Param) (text : String) : String := c.name ++ "=" ++ text

/-- What is made of the names and of what is found for them, the default aside. -/
theorem map_lookups
    {α β γ : Type} {f : α → Option β} {cs : List α} {xs : List β}
    (hf : List.Forall₂ (fun c x => f c = some x) cs xs) (g : α → β → γ) (d : β) :
    cs.map (fun c => g c ((f c).getD d)) = List.zipWith g cs xs := by
  induction hf with
  | nil =>
      rfl
  | cons hx _ ih =>
      rw [List.map_cons, List.zipWith_cons_cons, ih, hx, Option.getD_some]

theorem RecordOf.displayWithin_eq
    {parts : List Value} (ho : h.RecordOf o parts) :
    h.displayWithin (n + 1) (.object o) =
      o.cls.name ++ "(" ++ ", ".intercalate
        (List.zipWith partText o.cls.own.components (parts.map (h.displayWithin n))) ++ ")" := by
  rw [List.zipWith_map_right,
    ← map_lookups ho.parts_eq (fun c v => partText c (h.displayWithin n v)) .nil, displayWithin]
  simp only [ho.constant_eq, ho.kind_eq]
  rfl

theorem Simple.displayWithin_eq (hv : h.Simple v) (n m : Nat) :
    h.displayWithin (n + 1) v = h.displayWithin (m + 1) v := by
  cases hv with
  | literal hv =>
      cases hv <;> rfl
  | str =>
      rfl
  | constant _ _ hconstant =>
      rw [displayWithin, displayWithin, hconstant]

theorem map_eq_of_forall₂
    {α β : Type} {f : α → β} {R : α → α → Prop} {xs ys : List α}
    (hall : List.Forall₂ R xs ys) (hf : ∀ x ∈ xs, ∀ y ∈ ys, R x y → f x = f y) :
    xs.map f = ys.map f := by
  induction hall with
  | nil =>
      rfl
  | cons hxy _ ih =>
      rw [List.map_cons, List.map_cons, hf _ List.mem_cons_self _ List.mem_cons_self hxy,
        ih fun x hx y hy => hf x (List.mem_cons_of_mem _ hx) y (List.mem_cons_of_mem _ hy)]

/-- Equal values have the same text. -/
theorem PlainWithin.displayWithin_eq
    (hclasses : h.ClassesApart) (ha : h.PlainWithin n a) (hb : h.PlainWithin n b)
    (heq : h.equalsWithin n a b = true) :
    h.displayWithin n a = h.displayWithin n b := by
  induction ha generalizing b with
  | simple ha =>
      cases hb with
      | simple hb =>
          rw [(ha.equalsWithin_iff hb).mp heq]
      | record ho hrecord _ =>
          exact absurd heq (ha.not_equalsWithin hclasses ho hrecord).1
  | record ho hrecord hall ih =>
      cases hb with
      | simple hb =>
          exact absurd heq (hb.not_equalsWithin hclasses ho hrecord).2
      | record ho' hrecord' hall' =>
          have hcls := ho.cls_eq hclasses ho' heq
          rcases (hrecord.equalsWithin_iff hrecord' hcls).mp heq with hid | hparts
          · rw [ho.eq_of_id ho' hid]
          · rw [hrecord.displayWithin_eq, hrecord'.displayWithin_eq, hcls,
              map_eq_of_forall₂ hparts fun x hx y hy => ih x hx (hall' y hy)]

/-! ### Reading a text back -/

/-- The characters that the text of a record is built with. -/
def marks : List Char := ['(', ')', ',']

/-- A text has no mark of the notation of records. -/
def Unmarked (text : String) : Prop := ∀ c ∈ text.toList, c ∉ marks

/-- What follows the text of a part: nothing, a comma or the end of the record. -/
def Follows (x : List Char) : Prop := ∀ c ∈ x.head?, c ∈ [')', ',']

theorem Follows.marked {x : List Char} (hx : Follows x) : ∀ c ∈ x.head?, c ∈ marks :=
  fun c hc => List.mem_cons_of_mem _ (hx c hc)

/-- What has a mark at its beginning is told from what has none before it. -/
theorem append_inj_of_marked
    {p : Char → Prop} {s t x y : List Char}
    (hs : ∀ c ∈ s, ¬ p c) (ht : ∀ c ∈ t, ¬ p c) (hx : ∀ c ∈ x.head?, p c) (hy : ∀ c ∈ y.head?, p c)
    (heq : s ++ x = t ++ y) :
    s = t ∧ x = y := by
  induction s generalizing t with
  | nil =>
      cases t with
      | nil =>
          exact ⟨rfl, heq⟩
      | cons d t =>
          exact absurd (hx d (by rw [← List.nil_append x, heq]; rfl)) (ht d List.mem_cons_self)
  | cons c s ih =>
      cases t with
      | nil =>
          exact absurd (hy c (by rw [← List.nil_append y, ← heq]; rfl)) (hs c List.mem_cons_self)
      | cons d t =>
          obtain ⟨rfl, hrest⟩ := List.cons.inj heq
          obtain ⟨rfl, hxy⟩ := ih (fun c hc => hs c (List.mem_cons_of_mem _ hc))
            (fun c hc => ht c (List.mem_cons_of_mem _ hc)) hrest
          exact ⟨rfl, hxy⟩

/-- Some values, and what the records among them are built of. -/
inductive Among (h : Heap) (K : Set Value) : Value → Prop
  | self {v : Value} : v ∈ K → Among h K v
  | part {o : Instance} {parts : List Value} {v : Value} :
      Among h K (.object o) → h.RecordOf o parts → v ∈ parts → Among h K v

/-- What the records among some values are built of. -/
def InRecord (h : Heap) (K : Set Value) (v : Value) : Prop :=
  ∃ o parts, h.Among K (.object o) ∧ h.RecordOf o parts ∧ v ∈ parts

theorem InRecord.among (hv : h.InRecord K v) : h.Among K v := by
  obtain ⟨o, parts, ho, hrecord, hmem⟩ := hv
  exact .part ho hrecord hmem

/-- The texts of some values do not mislead. -/
structure Legible (h : Heap) (K : Set Value) : Prop where
  /-- The name of a class has no mark and no dot. -/
  class_unmarked : ∀ o, h.Among K (.object o) → Unmarked o.cls.name ∧ '.' ∉ o.cls.name.toList
  constant_unmarked : ∀ o, h.Among K (.object o) → ∀ k ∈ o.constant, Unmarked k.1
  /-- A class is known by its name. -/
  class_apart : ∀ o o', h.Among K (.object o) → h.Among K (.object o') →
    o.cls.name = o'.cls.name → o.cls = o'.cls
  /-- A constant is known by its name in its class. -/
  constant_apart : ∀ o o', h.Among K (.object o) → h.Among K (.object o') → o.cls = o'.cls →
    ∀ k ∈ o.constant, ∀ k' ∈ o'.constant, k.1 = k'.1 → o = o'
  /-- A string in a record has no mark. -/
  string_unmarked : ∀ s, h.InRecord K (.str s) → Unmarked s
  /-- A string in a record is not the text of anything else in a record. -/
  string_apart : ∀ s v, h.InRecord K (.str s) → h.InRecord K v → h.display v = s → v = .str s
  /-- A string is not the text of a record. -/
  key_apart : ∀ s o parts, .str s ∈ K → .object o ∈ K → h.RecordOf o parts →
    h.display (.object o) ≠ s

/-- The text of an integer has digits and a sign. -/
theorem mem_int_text
    {i : Int64} {c : Char} (hc : c ∈ (toString i).toList) :
    c.isDigit = true ∨ c = '-' := by
  have hdigits (k : Nat) (hk : c ∈ k.repr.toList) : c.isDigit = true := by
    rw [Nat.toList_repr] at hk
    exact Nat.isDigit_of_mem_toDigits (by omega) (by omega) hk
  change c ∈ (Int.repr i.toInt).toList at hc
  cases hi : i.toInt with
  | ofNat k =>
      rw [hi] at hc
      exact .inl (hdigits k hc)
  | negSucc k =>
      rw [hi, Int.repr, String.toList_append, List.mem_append] at hc
      rcases hc with hsign | hrest
      · exact .inr (List.mem_singleton.mp hsign)
      · exact .inl (hdigits _ hrest)

theorem not_mem_int_text {i : Int64} {c : Char} (hdigit : c.isDigit = false) (hsign : c ≠ '-') :
    c ∉ (toString i).toList := by
  intro hc
  rcases mem_int_text hc with h | h
  · rw [hdigit] at h
    nomatch h
  · exact hsign h

theorem int_text_inj {i j : Int64} (heq : toString i = toString j) : i = j :=
  Int64.toInt_inj.mp (Int.repr_inj.mp heq)

namespace Literal

/-- A number or a word has no mark and no dot. -/
theorem not_mem_text
    {c : Char} (hv : Literal v) (hc : c ∈ '.' :: marks) :
    c ∉ (h.displayWithin (n + 1) v).toList := by
  rw [marks, List.mem_cons, List.mem_cons, List.mem_cons, List.mem_singleton] at hc
  cases hv with
  | nil =>
      show c ∉ "nil".toList
      rcases hc with rfl | rfl | rfl | rfl <;> simp
  | bool b =>
      show c ∉ (if b then "true" else "false").toList
      rcases hc with rfl | rfl | rfl | rfl <;> cases b <;> simp
  | int i =>
      show c ∉ (toString i).toList
      rcases hc with rfl | rfl | rfl | rfl <;> exact not_mem_int_text (by decide) (by decide)

/-- The text of an integer is not a word. -/
theorem int_text_ne
    {i : Int64} {word : String} (hword : word ∈ ["nil", "true", "false"]) :
    toString i ≠ word := by
  rintro rfl
  have hletter : ∀ word ∈ ["nil", "true", "false"], 'l' ∈ word.toList ∨ 'e' ∈ word.toList := by
    simp
  rcases hletter _ hword with hc | hc
  · exact not_mem_int_text (by decide) (by decide) hc
  · exact not_mem_int_text (by decide) (by decide) hc

/-- Numbers and words are told apart by their texts. -/
theorem text_inj
    (ha : Literal a) (hb : Literal b)
    (htext : h.displayWithin (n + 1) a = h.displayWithin (n + 1) b) :
    a = b := by
  have hnil : "nil" ∈ ["nil", "true", "false"] := List.mem_cons_self
  have hword (b : Bool) : h.displayWithin (n + 1) (.bool b) ∈ ["nil", "true", "false"] := by
    cases b <;> simp [displayWithin]
  cases ha with
  | nil =>
      cases hb with
      | nil => rfl
      | bool b => cases b <;> simp [displayWithin] at htext
      | int i => exact absurd htext.symm (int_text_ne hnil)
  | bool b =>
      cases hb with
      | nil => cases b <;> simp [displayWithin] at htext
      | bool b' => cases b <;> cases b' <;> simp [displayWithin] at htext ⊢
      | int i => exact absurd htext.symm (int_text_ne (hword b))
  | int i =>
      cases hb with
      | nil => exact absurd htext (int_text_ne hnil)
      | bool b => exact absurd htext (int_text_ne (hword b))
      | int j => rw [int_text_inj htext]

end Literal

theorem toList_constant_text
    {k : String × Nat} (hk : o.constant = some k) :
    (h.displayWithin (n + 1) (.object o)).toList = o.cls.name.toList ++ '.' :: k.1.toList := by
  rw [displayWithin, hk]
  show (o.cls.name ++ "." ++ k.1).toList = _
  rw [String.toList_append, String.toList_append, List.append_assoc]
  rfl

theorem Literal.ne_constant_text
    {k : String × Nat} (hv : Literal v) (hk : o.constant = some k) :
    h.displayWithin (n + 1) v ≠ h.displayWithin (n + 1) (.object o) := by
  intro heq
  refine hv.not_mem_text (h := h) (n := n) List.mem_cons_self ?_
  rw [heq, toList_constant_text hk]
  simp

namespace Legible

/-- Constants are told apart by their texts. -/
theorem constant_inj
    {k k' : String × Nat} (hK : h.Legible K)
    (ho : h.Among K (.object o)) (ho' : h.Among K (.object o'))
    (hk : o.constant = some k) (hk' : o'.constant = some k')
    (htext : h.displayWithin (n + 1) (.object o) = h.displayWithin (n + 1) (.object o')) :
    o = o' := by
  have hdot {o : Instance} (ho : h.Among K (.object o)) (c : Char) (hc : c ∈ o.cls.name.toList) :
      c ≠ '.' := by
    rintro rfl
    exact (hK.class_unmarked o ho).2 hc
  rw [← String.toList_inj, toList_constant_text hk, toList_constant_text hk'] at htext
  obtain ⟨hname, hrest⟩ := append_inj_of_marked (p := (· = '.')) (hdot ho) (hdot ho')
    (by simp) (by simp) htext
  exact hK.constant_apart o o' ho ho' (hK.class_apart o o' ho ho' (String.toList_inj.mp hname))
    k hk k' hk' (String.toList_inj.mp (List.cons.inj hrest).2)

/-- Values without parts are told apart by their texts. -/
theorem simple_inj
    (hK : h.Legible K) (ha : h.Simple a) (hb : h.Simple b)
    (hak : h.InRecord K a) (hbk : h.InRecord K b)
    (htext : h.displayWithin (n + 1) a = h.displayWithin (n + 1) b) :
    a = b := by
  have hstring {s : String} {v : Value} (hs : h.InRecord K (.str s)) (hv : h.Simple v)
      (hvk : h.InRecord K v) (hvs : h.displayWithin (n + 1) v = s) : v = .str s :=
    hK.string_apart s v hs hvk ((hv.displayWithin_eq _ n).trans hvs)
  cases ha with
  | str s =>
      exact (hstring hak hb hbk htext.symm).symm
  | literal ha =>
      cases hb with
      | str s => exact hstring hbk (.literal ha) hak htext
      | literal hb => exact ha.text_inj hb htext
      | constant _ _ hk => exact absurd htext (ha.ne_constant_text hk)
  | constant ho hkind hk =>
      cases hb with
      | str s => exact hstring hbk (.constant ho hkind hk) hak htext
      | literal hb => exact absurd htext.symm (hb.ne_constant_text hk)
      | constant _ _ hk' => rw [hK.constant_inj hak.among hbk.among hk hk' htext]

/-- The text of a value without parts has no mark. -/
theorem simple_unmarked
    (hK : h.Legible K) (hv : h.Simple v) (hvk : h.InRecord K v) :
    Unmarked (h.displayWithin (n + 1) v) := by
  cases hv with
  | literal hv =>
      exact fun c hmem hc => hv.not_mem_text (List.mem_cons_of_mem _ hc) hmem
  | str s =>
      exact hK.string_unmarked s hvk
  | constant _ _ hk =>
      intro c hc
      rw [toList_constant_text hk, List.mem_append, List.mem_cons] at hc
      rcases hc with hname | rfl | hconstant
      · exact (hK.class_unmarked _ hvk.among).1 c hname
      · decide
      · exact hK.constant_unmarked _ hvk.among _ hk c hconstant

end Legible

/-! #### Records -/

/-- The text between the parentheses of a record. -/
def partsText (h : Heap) (n : Nat) (cs : List Param) (vs : List Value) : List Char :=
  (", ".intercalate (List.zipWith partText cs (vs.map (h.displayWithin n)))).toList

theorem partsText_singleton (h : Heap) (n : Nat) (c : Param) (v : Value) :
    h.partsText n [c] [v] = c.name.toList ++ '=' :: (h.displayWithin n v).toList := by
  rw [partsText, List.map_singleton, List.zipWith_cons_cons, List.zipWith_nil_left,
    String.intercalate_singleton, partText, String.toList_append, String.toList_append,
    List.append_assoc]
  rfl

theorem partsText_cons_cons_append
    (h : Heap) (n : Nat) (c c' : Param) (cs : List Param) (v v' : Value) (vs : List Value)
    (x : List Char) :
    h.partsText n (c :: c' :: cs) (v :: v' :: vs) ++ x =
      c.name.toList ++ '=' :: (h.displayWithin n v).toList ++
        ',' :: ' ' :: (h.partsText n (c' :: cs) (v' :: vs) ++ x) := by
  rw [partsText, List.map_cons, List.map_cons, List.zipWith_cons_cons, List.zipWith_cons_cons,
    String.intercalate_cons_cons, ← List.zipWith_cons_cons, ← List.map_cons, partText]
  simp only [String.toList_append, List.append_assoc]
  rfl

theorem RecordOf.toList_text_append
    {parts : List Value} (ho : h.RecordOf o parts) (x : List Char) :
    (h.displayWithin (n + 1) (.object o)).toList ++ x =
      o.cls.name.toList ++ '(' :: (h.partsText n o.cls.own.components parts ++ ')' :: x) := by
  rw [ho.displayWithin_eq, partsText]
  simp only [String.toList_append, List.append_assoc]
  rfl

/-- The texts of what the records among some values are built of can be read back, whatever follows
them in a record. -/
def ReadsBack (h : Heap) (K : Set Value) (n : Nat) : Prop :=
  ∀ a b x y, h.PlainWithin n a → h.PlainWithin n b → h.InRecord K a → h.InRecord K b →
    Follows x → Follows y →
    (h.displayWithin n a).toList ++ x = (h.displayWithin n b).toList ++ y →
    h.equalsWithin n a b = true ∧ x = y

namespace ReadsBack

theorem follows_cons {c : Char} {x : List Char} (hc : c ∈ [')', ',']) : Follows (c :: x) := by
  rintro d ⟨⟩
  exact hc

/-- One part of a record can be read back. -/
theorem part
    {c : Param} {x y : List Char} (hn : h.ReadsBack K n)
    (ha : h.PlainWithin n a ∧ h.InRecord K a) (hb : h.PlainWithin n b ∧ h.InRecord K b)
    (hx : Follows x) (hy : Follows y)
    (htext : c.name.toList ++ '=' :: (h.displayWithin n a).toList ++ x =
      c.name.toList ++ '=' :: (h.displayWithin n b).toList ++ y) :
    h.equalsWithin n a b = true ∧ x = y := by
  rw [List.append_assoc, List.append_assoc, List.append_cancel_left_eq, List.cons_append,
    List.cons_append] at htext
  exact hn a b x y ha.1 hb.1 ha.2 hb.2 hx hy (List.cons.inj htext).2

/-- The parts of a record can be read back one after another. -/
theorem parts (hn : h.ReadsBack K n) {x y : List Char} :
    ∀ {cs : List Param} {vs ws : List Value}, cs.length = vs.length → cs.length = ws.length →
      (∀ v ∈ vs, h.PlainWithin n v ∧ h.InRecord K v) →
      (∀ w ∈ ws, h.PlainWithin n w ∧ h.InRecord K w) →
      h.partsText n cs vs ++ ')' :: x = h.partsText n cs ws ++ ')' :: y →
      List.Forall₂ (fun v w => h.equalsWithin n v w = true) vs ws ∧ x = y
  | [], [], [], _, _, _, _, htext => by
      exact ⟨.nil, (List.cons.inj htext).2⟩
  | [c], [v], [w], _, _, hvs, hws, htext => by
      rw [partsText_singleton, partsText_singleton] at htext
      obtain ⟨heq, hrest⟩ := hn.part (hvs v List.mem_cons_self) (hws w List.mem_cons_self)
        (follows_cons (by simp)) (follows_cons (by simp)) htext
      exact ⟨.cons heq .nil, (List.cons.inj hrest).2⟩
  | c :: c' :: cs, v :: v' :: vs, w :: w' :: ws, hvlen, hwlen, hvs, hws, htext => by
      rw [partsText_cons_cons_append, partsText_cons_cons_append] at htext
      obtain ⟨heq, hrest⟩ := hn.part (hvs v List.mem_cons_self) (hws w List.mem_cons_self)
        (follows_cons (by simp)) (follows_cons (by simp)) htext
      obtain ⟨hall, hxy⟩ := parts hn (Nat.succ.inj hvlen) (Nat.succ.inj hwlen)
        (fun u hu => hvs u (List.mem_cons_of_mem _ hu))
        (fun u hu => hws u (List.mem_cons_of_mem _ hu)) (List.cons.inj (List.cons.inj hrest).2).2
      exact ⟨.cons heq hall, hxy⟩

/-- A record can be read back if what it is built of can. -/
theorem record
    {vs ws : List Value} {x y : List Char} (hK : h.Legible K) (hn : h.ReadsBack K n)
    (ho : h.Among K (.object o)) (ho' : h.Among K (.object o'))
    (hrecord : h.RecordOf o vs) (hrecord' : h.RecordOf o' ws)
    (hvs : ∀ v ∈ vs, h.PlainWithin n v) (hws : ∀ w ∈ ws, h.PlainWithin n w)
    (htext : (h.displayWithin (n + 1) (.object o)).toList ++ x =
      (h.displayWithin (n + 1) (.object o')).toList ++ y) :
    h.equalsWithin (n + 1) (.object o) (.object o') = true ∧ x = y := by
  rw [hrecord.toList_text_append, hrecord'.toList_text_append] at htext
  obtain ⟨hname, hrest⟩ := append_inj_of_marked (p := (· ∈ marks)) (hK.class_unmarked o ho).1
    (hK.class_unmarked o' ho').1 (by simp [marks]) (by simp [marks]) htext
  have hcls : o.cls = o'.cls := hK.class_apart o o' ho ho' (String.toList_inj.mp hname)
  have hparts := (List.cons.inj hrest).2
  rw [← hcls] at hparts
  obtain ⟨hall, hxy⟩ := hn.parts hrecord.parts_eq.length_eq
    (hcls ▸ hrecord'.parts_eq.length_eq) (fun v hv => ⟨hvs v hv, o, vs, ho, hrecord, hv⟩)
    (fun w hw => ⟨hws w hw, o', ws, ho', hrecord', hw⟩) hparts
  exact ⟨(hrecord.equalsWithin_iff hrecord' hcls).mpr (.inr hall), hxy⟩

end ReadsBack

/-- What stands before a mark that follows a part is no text of a record. -/
theorem Legible.simple_ne_record
    {vs : List Value} {x y : List Char} (hK : h.Legible K)
    (ha : h.Simple a) (hak : h.InRecord K a) (ho : h.Among K (.object o))
    (hrecord : h.RecordOf o vs) (hx : Follows x) :
    (h.displayWithin (n + 1) a).toList ++ x ≠
      (h.displayWithin (n + 1) (.object o)).toList ++ y := by
  intro htext
  rw [hrecord.toList_text_append] at htext
  obtain ⟨-, rfl⟩ := append_inj_of_marked (p := (· ∈ marks)) (hK.simple_unmarked ha hak)
    (hK.class_unmarked o ho).1 hx.marked (by simp [marks]) htext
  exact absurd (hx '(' rfl) (by decide)

/-- The texts of what legible records are built of can be read back. -/
theorem Legible.readsBack (hK : h.Legible K) (n : Nat) : h.ReadsBack K n := by
  induction n with
  | zero =>
      intro a b x y ha
      nomatch ha
  | succ n ih =>
      intro a b x y ha hb hak hbk hx hy htext
      cases ha with
      | simple ha =>
          cases hb with
          | simple hb =>
              obtain ⟨heq, hxy⟩ := append_inj_of_marked (p := (· ∈ marks))
                (hK.simple_unmarked ha hak) (hK.simple_unmarked hb hbk) hx.marked hy.marked htext
              exact ⟨(ha.equalsWithin_iff hb).mpr
                (hK.simple_inj ha hb hak hbk (String.toList_inj.mp heq)), hxy⟩
          | record ho hrecord _ =>
              exact absurd htext (hK.simple_ne_record ha hak hbk.among hrecord hx)
      | record ho hrecord hall =>
          cases hb with
          | simple hb =>
              exact absurd htext.symm (hK.simple_ne_record hb hbk hak.among hrecord hy)
          | record ho' hrecord' hall' =>
              exact ih.record hK hak.among hbk.among hrecord hrecord' hall hall' htext

end Heap
end ScriptEngine
