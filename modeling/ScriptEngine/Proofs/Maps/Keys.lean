import ScriptEngine.Proofs.Maps.Dictionary
import ScriptEngine.Proofs.Maps.Texts
import ScriptEngine.Proofs.Stores.Session

/-!
# Keys and equality

A map goes by the image of a key.  Plain values that are equal have the same image, so what is
stored under a key is found under any equal one.

**Shared images.**  The image of a record is its text, as an image of the same kind as those of
strings.  So different keys share an image just if both are strings or records and have the same
text (`Plain.key_eq_iff`).  Where the texts do not mislead, different keys have different images
(`Legible.key_eq_iff`), and a map goes by the equality of the language.
-/

namespace ScriptEngine

namespace Heap

variable {h : Heap} {K : Set Value} {o o' : Instance} {a b v : Value}

/-- Strings and records, which maps know by their texts. -/
inductive KnownByText : Value → Prop
  | str (s : String) : KnownByText (.str s)
  | record {o : Instance} : o.cls.kind = .record → KnownByText (.object o)

theorem KnownByText.key_eq (hv : KnownByText v) : h.key v = .str (h.display v) := by
  cases hv with
  | str s =>
      rfl
  | record hkind =>
      rw [key, hkind]
      rfl

/-- A plain value has no parts, or it is a record with parts one level less deep. -/
theorem Plain.cases (hv : h.Plain v) :
    h.Simple v ∨ ∃ o parts, v = .object o ∧ h.Owns o ∧ h.RecordOf o parts ∧
      ∀ u ∈ parts, h.PlainWithin (h.depthLimit - 1) u := by
  obtain ⟨n, hn⟩ : ∃ n, h.depthLimit = n + 1 := ⟨_, rfl⟩
  have hwithin := hv.within
  rw [hn] at hwithin
  cases hwithin with
  | simple hv => exact .inl hv
  | record ho hrecord hall => exact .inr ⟨_, _, rfl, ho, hrecord, by rwa [hn]⟩

theorem Simple.key_constant (hkind : o.cls.kind = .enumeration) :
    h.key (.object o) = .identity (.object o.id) := by
  rw [key, hkind]
  rfl

/-- Of the values without parts only a string has the image of one. -/
theorem Simple.eq_str_of_key
    {s : String} (hv : h.Simple v) (hkey : h.key v = .str s) :
    v = .str s := by
  cases hv with
  | literal hv => cases hv <;> simp [key] at hkey
  | str => simpa [key] using hkey
  | constant _ hkind _ =>
      rw [key_constant hkind] at hkey
      cases hkey

/-- Values without parts have their own images. -/
theorem Simple.key_inj
    (ha : h.Simple a) (hb : h.Simple b) (hkey : h.key a = h.key b) :
    a = b := by
  cases ha with
  | str s =>
      exact (hb.eq_str_of_key hkey.symm).symm
  | literal ha =>
      cases hb with
      | str s => exact (Simple.literal ha).eq_str_of_key hkey
      | literal hb => cases ha <;> cases hb <;> simp_all [key]
      | constant _ hkind _ =>
          rw [key_constant hkind] at hkey
          cases ha <;> simp [key] at hkey
  | constant ho hkind hconstant =>
      cases hb with
      | str s => exact (Simple.constant ho hkind hconstant).eq_str_of_key hkey
      | literal hb =>
          rw [key_constant hkind] at hkey
          cases hb <;> simp [key] at hkey
      | constant ho' hkind' _ =>
          rw [key_constant hkind, key_constant hkind', KeyImage.identity.injEq,
            Identity.object.injEq] at hkey
          rw [ho.eq_of_id ho' hkey]

namespace Plain

/-- Equal values have the same image. -/
theorem key_of_equals
    (hclasses : h.ClassesApart) (ha : h.Plain a) (hb : h.Plain b) (heq : h.equals a b = true) :
    h.key a = h.key b := by
  rcases ha.cases with hsimple | ⟨o, parts, rfl, ho, hrecord, -⟩
  · rcases hb.cases with hsimple' | ⟨o', parts', rfl, ho', hrecord', -⟩
    · rw [(hsimple.equalsWithin_iff hsimple').mp heq]
    · exact absurd heq (hsimple.not_equalsWithin hclasses ho' hrecord').1
  · rcases hb.cases with hsimple' | ⟨o', parts', rfl, ho', hrecord', -⟩
    · exact absurd heq (hsimple'.not_equalsWithin hclasses ho hrecord).2
    · rw [(KnownByText.record hrecord.kind_eq).key_eq, (KnownByText.record hrecord'.kind_eq).key_eq]
      exact congrArg _ (ha.within.displayWithin_eq hclasses hb.within heq)

/-- Values have the same image just if they are equal, or are strings or records with one text. -/
theorem key_eq_iff
    (hclasses : h.ClassesApart) (ha : h.Plain a) (hb : h.Plain b) :
    h.key a = h.key b ↔
      h.equals a b = true ∨ KnownByText a ∧ KnownByText b ∧ h.display a = h.display b := by
  constructor
  · intro hkey
    rcases ha.cases with hsimple | ⟨o, parts, rfl, ho, hrecord, -⟩
    · rcases hb.cases with hsimple' | ⟨o', parts', rfl, ho', hrecord', -⟩
      · exact .inl ((hsimple.equalsWithin_iff hsimple').mpr (hsimple.key_inj hsimple' hkey))
      · have hb' := KnownByText.record hrecord'.kind_eq
        obtain rfl := hsimple.eq_str_of_key (hkey.trans hb'.key_eq)
        exact .inr ⟨.str _, hb', rfl⟩
    · have ha' := KnownByText.record hrecord.kind_eq
      rcases hb.cases with hsimple' | ⟨o', parts', rfl, ho', hrecord', -⟩
      · obtain rfl := hsimple'.eq_str_of_key (hkey.symm.trans ha'.key_eq)
        exact .inr ⟨ha', .str _, rfl⟩
      · have hb' := KnownByText.record hrecord'.kind_eq
        rw [ha'.key_eq, hb'.key_eq, KeyImage.str.injEq] at hkey
        exact .inr ⟨ha', hb', hkey⟩
  · rintro (heq | ⟨ha', hb', htext⟩)
    · exact key_of_equals hclasses ha hb heq
    · rw [ha'.key_eq, hb'.key_eq, htext]

end Plain

namespace Legible

/-- Legible strings and records with the same text are equal. -/
theorem equals_of_display
    (hK : h.Legible K) (ha : a ∈ K) (hb : b ∈ K) (hpa : h.Plain a) (hpb : h.Plain b)
    (ha' : KnownByText a) (hb' : KnownByText b) (htext : h.display a = h.display b) :
    h.equals a b = true := by
  have hkey : h.key a = h.key b := by
    rw [ha'.key_eq, hb'.key_eq, htext]
  rcases hpa.cases with hsimple | ⟨o, parts, rfl, ho, hrecord, hall⟩
  · rcases hpb.cases with hsimple' | ⟨o', parts', rfl, ho', hrecord', hall'⟩
    · exact (hsimple.equalsWithin_iff hsimple').mpr (hsimple.key_inj hsimple' hkey)
    · obtain rfl := hsimple.eq_str_of_key (hkey.trans hb'.key_eq)
      exact absurd rfl (hK.key_apart _ o' parts' ha hb hrecord')
  · rcases hpb.cases with hsimple' | ⟨o', parts', rfl, ho', hrecord', hall'⟩
    · obtain rfl := hsimple'.eq_str_of_key (hkey.symm.trans ha'.key_eq)
      exact absurd rfl (hK.key_apart _ o parts hb ha hrecord)
    · refine ((hK.readsBack (h.depthLimit - 1)).record hK (.self ha) (.self hb) hrecord hrecord'
        hall hall' (x := []) (y := []) ?_).1
      exact congrArg (·.toList ++ []) htext

/-- Legible values have the same image just if they are equal. -/
theorem key_eq_iff
    (hK : h.Legible K) (hclasses : h.ClassesApart) (hplain : ∀ v ∈ K, h.Plain v)
    (ha : a ∈ K) (hb : b ∈ K) :
    h.key a = h.key b ↔ h.equals a b = true := by
  rw [Plain.key_eq_iff hclasses (hplain a ha) (hplain b hb), or_iff_left_of_imp]
  rintro ⟨ha', hb', htext⟩
  exact hK.equals_of_display ha hb (hplain a ha) (hplain b hb) ha' hb' htext

end Legible

end Heap

/-! ### Maps -/

namespace KeyedMap

variable {h : Heap} {m : KeyedMap} {key v : Value} {e : Value × Value}

/-- What is asked of a map and done to it at a key is about the entry whose key is equal. -/
structure GoesByEquality (h : Heap) (m : KeyedMap) (key : Value) : Prop where
  get : m.get? (h.key key) = (m.dictionary.find? fun e => h.equals e.1 key).map (·.2)
  contains : m.contains (h.key key) = m.dictionary.any fun e => h.equals e.1 key
  insert : ∀ v, (m.insert (h.key key) key v).2.dictionary =
    if m.dictionary.any fun e => h.equals e.1 key then
      m.dictionary.map fun e => if h.equals e.1 key then (e.1, v) else e
    else m.dictionary ++ [(key, v)]
  erase : (m.erase (h.key key)).2.dictionary = m.dictionary.filter fun e => !h.equals e.1 key

namespace Indexed

variable {image : Value → KeyImage}

/-- What is stored under a key is found under every key with the same image. -/
theorem get?_of_mem
    (hm : m.Indexed image) (he : e ∈ m.dictionary) (hkey : image e.1 = image key) :
    m.get? (image key) = some e.2 := by
  obtain ⟨i, hi⟩ := List.mem_iff_getElem?.mp he
  rw [getElem?_dictionary] at hi
  rw [get?, (hm (image key) i).mpr ⟨e, hi, hkey⟩, Option.bind_some, hi, Option.map_some]

/-- Where the images tell the keys apart, a map goes by equality. -/
theorem goesByEquality
    (hm : m.Indexed h.key)
    (hkeys : ∀ e ∈ m.dictionary, h.key e.1 = h.key key ↔ h.equals e.1 key = true) :
    m.GoesByEquality h key := by
  have hsame (e : Value × Value) (he : e ∈ m.dictionary) :
      decide (h.key e.1 = h.key key) = h.equals e.1 key := by
    rw [Bool.eq_iff_iff, decide_eq_true_iff, hkeys e he]
  have hholds : m.dictionary.holds h.key key = m.dictionary.any fun e => h.equals e.1 key := by
    rw [Dictionary.holds, ← List.isSome_find?, ← List.isSome_find?, List.find?_congr hsame]
  constructor
  case get =>
    rw [hm.get?_eq, Dictionary.value?, List.find?_congr hsame]
  case contains =>
    rw [hm.contains_eq, hholds]
  case insert =>
    intro v
    rw [hm.dictionary_insert, Dictionary.put, hholds]
    congr 1
    exact List.map_congr_left fun e he => by simp only [hkeys e he]
  case erase =>
    rw [hm.dictionary_erase, Dictionary.without]
    exact List.filter_congr fun e he => by rw [decide_not, hsame e he]

end Indexed
end KeyedMap

/-! ### Classes of reachable heaps -/

theorem Fits.classesApart
    {w : World} {h : Heap} (hf : Fits w h) (hfilled : ∀ o, h.Owns o → (h.object o.id).Filled) :
    h.ClassesApart := by
  have hknown {o : Instance} (ho : h.Owns o) : .cls o.cls ∈ w :=
    ho.self_eq ▸ hf.owners o.id (hfilled o ho)
  exact fun o o' ho ho' hid => hf.classes.eq (hknown ho) (hknown ho') hid

/-- At every moment of a run the classes of the instances are known apart by their numbers. -/
theorem Session.after_classesApart
    (limit : Nat) (actions : List Action) (p : Program) {r : Res Value} {ws : List Waiting}
    {h : Heap} (hreach : Eval.Reaches (after limit actions).limit ((after limit actions).begin p)
      (after limit actions).waiting r ws) (hh : r.heap? = some h)
    (hfilled : ∀ o, h.Owns o → (h.object o.id).Filled) :
    h.ClassesApart := by
  obtain ⟨w, hfits⟩ := (((Stocked.after limit actions).begin p).reaches hreach).fits hh
  exact hfits.classesApart hfilled

/-! ### What keys tell -/

/-- Plain values have the same image just if they are equal, or are strings or records with one
text; so a map finds what it stores under an equal key.  Where the texts of the keys do not mislead,
only equal keys have the same image, and whatever is asked of a map or done to it at a key is about
the entry whose key is equal. -/
theorem Heap.keys_tell_equals
    (h : Heap) (K : Set Value) (hclasses : h.ClassesApart) (hplain : ∀ v ∈ K, h.Plain v) :
    (∀ a ∈ K, ∀ b ∈ K, h.key a = h.key b ↔
      h.equals a b = true ∨ KnownByText a ∧ KnownByText b ∧ h.display a = h.display b) ∧
    (∀ m : KeyedMap, m.Indexed h.key → (∀ e ∈ m.dictionary, e.1 ∈ K) → ∀ b ∈ K,
      ∀ e ∈ m.dictionary, h.equals e.1 b = true →
        m.get? (h.key b) = some e.2 ∧ (∀ v, (m.insert (h.key b) b v).1 = some e.2) ∧
          (m.erase (h.key b)).1 = some e.2) ∧
    (h.Legible K →
      (∀ a ∈ K, ∀ b ∈ K, h.key a = h.key b ↔ h.equals a b = true) ∧
      ∀ m : KeyedMap, m.Indexed h.key → (∀ e ∈ m.dictionary, e.1 ∈ K) → ∀ b ∈ K,
        m.GoesByEquality h b) := by
  refine ⟨fun a ha b hb => Plain.key_eq_iff hclasses (hplain a ha) (hplain b hb), ?_, ?_⟩
  · intro m hm hkeys b hb e he heq
    have hget := hm.get?_of_mem he
      ((hplain _ (hkeys e he)).key_of_equals hclasses (hplain b hb) heq)
    exact ⟨hget, fun v => by rw [hm.insert_found, ← hm.get?_eq, hget],
      by rw [hm.erase_found, ← hm.get?_eq, hget]⟩
  · intro hK
    exact ⟨fun a ha b hb => hK.key_eq_iff hclasses hplain ha hb, fun m hm hkeys b hb =>
      hm.goesByEquality fun e he => hK.key_eq_iff hclasses hplain (hkeys e he) hb⟩

/-! #### Cells -/

namespace Heap

/-- A record with one component. -/
def cellClass : ClassDef :=
  ⟨{ (default : ClassLayer) with
      name := "Cell"
      kind := .record
      components := [⟨"x", none, false, default⟩]
      owned := fun _ hm => absurd hm List.not_mem_nil }, []⟩

def cell (id : Nat) : Instance := ⟨id, cellClass, [], none⟩

/-- Two cells of a number, and one of a string. -/
def cells : Heap :=
  { Heap.empty with
    objects := #[
      .new ⟨cell 0, ⟨[("x", .int 1)]⟩, false, true, []⟩,
      .new ⟨cell 1, ⟨[("x", .int 1)]⟩, false, true, []⟩,
      .new ⟨cell 2, ⟨[("x", .str "a")]⟩, false, true, []⟩] }

namespace cells

def held : Nat → Value
  | 2 => .str "a"
  | _ => .int 1

/-- The cells, and the string that is in one of them. -/
def keys : Set Value := {v | v = .str "a" ∨ ∃ i < 3, v = .object (cell i)}

theorem self_eq : ∀ i < 3, (cells.object i).self = cell i
  | 0, _ | 1, _ | 2, _ => rfl

theorem field_eq : ∀ i < 3, cells.field? (cell i) "x" = some (held i)
  | 0, _ | 1, _ | 2, _ => rfl

theorem eq_cell {o : Instance} (ho : cells.Owns o) : ∃ i < 3, o = cell i :=
  ⟨o.id, ho.id_lt, by rw [← self_eq o.id ho.id_lt, ho.self_eq]⟩

theorem recordOf {i : Nat} (hi : i < 3) : cells.RecordOf (cell i) [held i] :=
  ⟨rfl, rfl, .cons (field_eq i hi) .nil⟩

theorem held_ne_object (i : Nat) (o : Instance) : held i ≠ .object o := by
  unfold held
  split <;> simp

theorem simple_held (i : Nat) : cells.Simple (held i) := by
  unfold held
  split
  · exact .str "a"
  · exact .literal (.int 1)

theorem plain (v : Value) (hv : v ∈ keys) : cells.Plain v := by
  rcases hv with rfl | ⟨i, hi, rfl⟩
  · exact ⟨1, .simple (.str "a")⟩
  · refine ⟨2, .record ⟨hi, self_eq i hi⟩ (recordOf hi) fun v hv => ?_⟩
    obtain rfl := List.mem_singleton.mp hv
    exact .simple (simple_held i)

theorem classesApart : cells.ClassesApart := by
  intro o o' ho ho' _
  obtain ⟨i, -, rfl⟩ := eq_cell ho
  obtain ⟨j, -, rfl⟩ := eq_cell ho'
  rfl

theorem among {v : Value} (hv : cells.Among keys v) : v ∈ keys ∨ ∃ i < 3, v = held i := by
  induction hv with
  | self hv =>
      exact .inl hv
  | part _ hrecord hmem ih =>
      rcases ih with (hstr | ⟨i, hi, hcell⟩) | ⟨i, hi, hheld⟩
      · nomatch hstr
      · cases hcell
        rw [hrecord.unique (recordOf hi)] at hmem
        exact .inr ⟨i, hi, List.mem_singleton.mp hmem⟩
      · exact absurd hheld.symm (held_ne_object i _)

theorem among_object {o : Instance} (ho : cells.Among keys (.object o)) : ∃ i < 3, o = cell i := by
  rcases among ho with (hstr | ⟨i, hi, hcell⟩) | ⟨i, hi, hheld⟩
  · nomatch hstr
  · exact ⟨i, hi, Value.object.inj hcell⟩
  · exact absurd hheld.symm (held_ne_object i o)

theorem inRecord {v : Value} (hv : cells.InRecord keys v) : v = .int 1 ∨ v = .str "a" := by
  obtain ⟨o, parts, ho, hrecord, hmem⟩ := hv
  obtain ⟨i, hi, rfl⟩ := among_object ho
  rw [hrecord.unique (recordOf hi), List.mem_singleton] at hmem
  rw [hmem]
  unfold held
  split <;> simp

theorem legible : cells.Legible keys where
  class_unmarked o ho := by
    obtain ⟨i, -, rfl⟩ := among_object ho
    simp [cell, cellClass, ClassDef.name, Unmarked, marks]
  constant_unmarked o ho := by
    obtain ⟨i, -, rfl⟩ := among_object ho
    simp [cell]
  class_apart o o' ho ho' _ := by
    obtain ⟨i, -, rfl⟩ := among_object ho
    obtain ⟨j, -, rfl⟩ := among_object ho'
    rfl
  constant_apart o o' ho _ _ := by
    obtain ⟨i, -, rfl⟩ := among_object ho
    simp [cell]
  string_unmarked s hs := by
    rcases inRecord hs with h | h <;> cases h
    simp [Unmarked, marks]
  string_apart s v hs hv htext := by
    rcases inRecord hs with h | h <;> cases h
    rcases inRecord hv with rfl | rfl
    · exact absurd htext (by decide)
    · rfl
  key_apart s o parts hs ho _ := by
    obtain ⟨i, hi, rfl⟩ := among_object (.self ho)
    rcases hs with h | ⟨_, _, h⟩ <;> cases h
    interval_cases i <;> decide

end cells

/-- A cell of the same number finds what is stored under another one; the cell of a string does not,
nor does the string. -/
theorem keys_tell_equals_cells :
    cells.ClassesApart ∧ (∀ v ∈ cells.keys, cells.Plain v) ∧ cells.Legible cells.keys ∧
      let m := (KeyedMap.empty.insert (cells.key (.object (cell 0))) (.object (cell 0)) (.int 7)).2
      m.get? (cells.key (.object (cell 1))) = some (.int 7) ∧
        m.get? (cells.key (.object (cell 2))) = none ∧ m.get? (cells.key (.str "a")) = none := by
  obtain ⟨-, -, htells⟩ := keys_tell_equals cells cells.keys cells.classesApart cells.plain
  obtain ⟨-, hmaps⟩ := htells cells.legible
  refine ⟨cells.classesApart, cells.plain, cells.legible, ?_⟩
  intro m
  have hindexed : m.Indexed cells.key := KeyedMap.Indexed.empty.insert _ _
  have hentries : m.dictionary = [(.object (cell 0), .int 7)] :=
    KeyedMap.Indexed.empty.dictionary_insert _ _
  have hget (b : Value) (hb : b ∈ cells.keys) :
      m.get? (cells.key b) = if cells.equals (.object (cell 0)) b then some (.int 7) else none := by
    have hkeys : ∀ e ∈ m.dictionary, e.1 ∈ cells.keys := by
      rw [hentries]
      rintro e ⟨⟩
      · exact .inr ⟨0, by decide, rfl⟩
      · contradiction
    rw [(hmaps m hindexed hkeys b hb).get, hentries, List.find?_singleton]
    split <;> rfl
  exact ⟨hget _ (.inr ⟨1, by decide, rfl⟩), hget _ (.inr ⟨2, by decide, rfl⟩), hget _ (.inl rfl)⟩

/-- A string that is the text of a cell has its image. -/
example : cells.key (.object (cell 0)) = cells.key (.str "Cell(x=1)") := rfl

end Heap
end ScriptEngine
