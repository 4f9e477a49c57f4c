import Mathlib.Data.Set.Card
import ScriptEngine.Heap.Display

/-!
# Maps as lists of entries

A `KeyedMap` keeps its entries in an array and finds them by an index.  A `Dictionary` is the same
map without the index: the list of its entries, the oldest first, in which a key is looked for from
end to end.

**Keys.**  Two values are the same key when they share their image.  What image a value has is a
parameter here; a map that is used asks the heap of the moment (`Heap.key`).

**Results.**
* `Indexed.insert`, `Indexed.erase`: the index of a map finds each entry, and nothing else, whatever
  is done to the map.
* `runSteps_dictionary`: a map answers as the dictionary of its entries, step after step.
-/

namespace ScriptEngine

variable {image : Value → KeyImage}

/-- What can be asked of a map, and done to it. -/
inductive MapOp
  | insert (key value : Value)
  | remove (key : Value)
  | get (key : Value)
  | contains (key : Value)
  | size
  | keys
  | values
  | entries

/-- The key that an operation goes by. -/
def MapOp.key? : MapOp → Option Value
  | insert key _ | remove key | get key | contains key => some key
  | size | keys | values | entries => none

/-- What a map answers. -/
inductive MapAnswer
  | found (v : Option Value)
  | truth (b : Bool)
  | count (n : Nat)
  | items (vs : List Value)
  | pairs (es : List (Value × Value))

/-! ### Dictionaries -/

/-- A finite map as the list of its entries, the oldest first. -/
abbrev Dictionary := List (Value × Value)

namespace Dictionary

variable (image : Value → KeyImage)

/-- The value of the entry of a key. -/
def value? (d : Dictionary) (key : Value) : Option Value :=
  (d.find? fun e => image e.1 = image key).map (·.2)

/-- Whether a key has an entry. -/
def holds (d : Dictionary) (key : Value) : Bool := d.any fun e => image e.1 = image key

/-- The entry of a key keeps its place and its key and gets the value; a new key comes last. -/
def put (d : Dictionary) (key v : Value) : Dictionary :=
  if holds image d key then d.map fun e => if image e.1 = image key then (e.1, v) else e
  else d ++ [(key, v)]

/-- All entries but the one of a key, in their order. -/
def without (d : Dictionary) (key : Value) : Dictionary := d.filter fun e => image e.1 ≠ image key

/-- What a dictionary answers, and what becomes of it. -/
def perform (d : Dictionary) : MapOp → MapAnswer × Dictionary
  | .insert key v => (.found (value? image d key), put image d key v)
  | .remove key => (.found (value? image d key), without image d key)
  | .get key => (.found (value? image d key), d)
  | .contains key => (.truth (holds image d key), d)
  | .size => (.count d.length, d)
  | .keys => (.items (d.map (·.1)), d)
  | .values => (.items (d.map (·.2)), d)
  | .entries => (.pairs d, d)

/-- The answers to operations one after another, and what becomes of a dictionary. -/
def performAll (d : Dictionary) : List MapOp → List MapAnswer × Dictionary
  | [] => ([], d)
  | op :: rest =>
    let r := perform image d op
    let s := performAll r.2 rest
    (r.1 :: s.1, s.2)

end Dictionary

/-! ### Maps -/

namespace KeyedMap

variable {m : KeyedMap} {key v : Value} {k : KeyImage} {i j : Nat} {e : Value × Value}

/-- What a map answers, and what becomes of it, in a state of the program. -/
def perform (h : Heap) (m : KeyedMap) : MapOp → MapAnswer × KeyedMap
  | .insert key v =>
    let r := m.insert (h.key key) key v
    (.found r.1, r.2)
  | .remove key =>
    let r := m.erase (h.key key)
    (.found r.1, r.2)
  | .get key => (.found (m.get? (h.key key)), m)
  | .contains key => (.truth (m.contains (h.key key)), m)
  | .size => (.count m.size, m)
  | .keys => (.items m.keys, m)
  | .values => (.items m.values, m)
  | .entries => (.pairs m.entries.toList, m)

/-- The answers to operations one after another, each in the state of its moment, and what becomes
of a map. -/
def runSteps (m : KeyedMap) : List (Heap × MapOp) → List MapAnswer × KeyedMap
  | [] => ([], m)
  | s :: rest =>
    let r := m.perform s.1 s.2
    let t := runSteps r.2 rest
    (r.1 :: t.1, t.2)

/-- The index of a map tells the slot of each entry by the image of its key, and nothing else. -/
def Indexed (image : Value → KeyImage) (m : KeyedMap) : Prop :=
  ∀ k i, m.index[k]? = some i ↔ ∃ e, m.entries[i]? = some e ∧ image e.1 = k

/-- The entries of a map as a dictionary. -/
def dictionary (m : KeyedMap) : Dictionary := m.entries.toList

theorem getElem?_dictionary : m.dictionary[i]? = m.entries[i]? :=
  Array.getElem?_toList

theorem length_dictionary : m.dictionary.length = m.size := rfl

namespace Indexed

@[simp] theorem empty : Indexed image empty := by
  intro k i
  simp [KeyedMap.empty]

/-- Only the entry in its slot has the image of a key. -/
theorem slot_unique
    (hm : m.Indexed image) (hi : m.index[k]? = some i) (hj : m.entries[j]? = some e) :
    image e.1 = k ↔ j = i := by
  constructor
  · intro hk
    have hslot : m.index[k]? = some j := (hm k j).mpr ⟨e, hj, hk⟩
    rw [hi, Option.some.injEq] at hslot
    exact hslot.symm
  · rintro rfl
    obtain ⟨e', he', hk⟩ := (hm k j).mp hi
    rw [hj, Option.some.injEq] at he'
    exact he' ▸ hk

/-- The slot of a key holds an entry. -/
theorem exists_entry
    (hm : m.Indexed image) (hi : m.index[k]? = some i) :
    ∃ e, m.entries[i]? = some e ∧ image e.1 = k ∧ e ∈ m.dictionary := by
  obtain ⟨e, he, hk⟩ := (hm k i).mp hi
  exact ⟨e, he, hk, Array.mem_toList_iff.mpr (Array.mem_of_getElem? he)⟩

/-- A key without a slot has no entry. -/
theorem ne_image
    (hm : m.Indexed image) (hk : m.index[k]? = none) (he : e ∈ m.dictionary) :
    image e.1 ≠ k := by
  intro hek
  obtain ⟨i, hi⟩ := List.mem_iff_getElem?.mp he
  rw [getElem?_dictionary] at hi
  have hslot := (hm k i).mpr ⟨e, hi, hek⟩
  rw [hk] at hslot
  nomatch hslot

theorem slot_lt
    (hm : m.Indexed image) (hi : m.index[k]? = some i) :
    i < m.entries.size := by
  obtain ⟨e, he, -⟩ := (hm k i).mp hi
  exact (Array.getElem?_eq_some_iff.mp he).1

/-! #### Questions -/

theorem get?_eq
    (hm : m.Indexed image) (key : Value) :
    m.get? (image key) = m.dictionary.value? image key := by
  rw [get?, Dictionary.value?]
  cases hi : m.index[image key]? with
  | none =>
      have hnone : m.dictionary.find? (fun e => image e.1 = image key) = none :=
        List.find?_eq_none.mpr fun e he => by simpa using hm.ne_image hi he
      rw [hnone]
      rfl
  | some i =>
      obtain ⟨e, he, hek, hmem⟩ := hm.exists_entry hi
      obtain ⟨e', hfind⟩ : ∃ e', m.dictionary.find? (fun e => image e.1 = image key) = some e' :=
        Option.isSome_iff_exists.mp (List.find?_isSome.mpr ⟨e, hmem, by simpa using hek⟩)
      obtain ⟨j, hj⟩ := List.mem_iff_getElem?.mp (List.mem_of_find?_eq_some hfind)
      rw [getElem?_dictionary] at hj
      have hji : j = i := (hm.slot_unique hi hj).mp (by simpa using List.find?_some hfind)
      rw [hfind, Option.bind_some, ← hji, hj]

theorem contains_eq
    (hm : m.Indexed image) (key : Value) :
    m.contains (image key) = m.dictionary.holds image key := by
  rw [contains, Std.HashMap.contains_eq_isSome_getElem?, Dictionary.holds]
  cases hi : m.index[image key]? with
  | none =>
      rw [Option.isSome_none, eq_comm, List.any_eq_false]
      exact fun e he => by simpa using hm.ne_image hi he
  | some i =>
      obtain ⟨e, -, hek, hmem⟩ := hm.exists_entry hi
      rw [Option.isSome_some, eq_comm, List.any_eq_true]
      exact ⟨e, hmem, by simpa using hek⟩

/-! #### Changes -/

theorem insert_found
    (hm : m.Indexed image) (key v : Value) :
    (m.insert (image key) key v).1 = m.dictionary.value? image key := by
  rw [← hm.get?_eq key, insert, get?]
  cases m.index[image key]? <;> rfl

theorem dictionary_insert
    (hm : m.Indexed image) (key v : Value) :
    (m.insert (image key) key v).2.dictionary = m.dictionary.put image key v := by
  rw [Dictionary.put, ← hm.contains_eq key, contains, Std.HashMap.contains_eq_isSome_getElem?,
    KeyedMap.insert]
  cases hi : m.index[image key]? with
  | none =>
      exact Array.toList_push
  | some i =>
      refine List.ext_getElem? fun j => ?_
      show (m.entries.modify i _).toList[j]? = (m.dictionary.map _)[j]?
      rw [Array.getElem?_toList, Array.getElem?_modify, List.getElem?_map, getElem?_dictionary]
      cases hj : m.entries[j]? with
      | none =>
          simp
      | some e =>
          simp only [Option.map_some, hm.slot_unique hi hj, eq_comm (a := i)]
          split <;> rfl

/-- A key without a slot gets the next one. -/
theorem push
    (hm : m.Indexed image) (hkey : m.index[image key]? = none) (v : Value) :
    Indexed image ⟨m.entries.push (key, v), m.index.insert (image key) m.entries.size⟩ := by
  intro k i
  rw [Std.HashMap.getElem?_insert, Array.getElem?_push]
  by_cases hk : image key = k
  · subst hk
    rw [if_pos (beq_self_eq_true _), Option.some.injEq]
    constructor
    · rintro rfl
      exact ⟨(key, v), if_pos rfl, rfl⟩
    · rintro ⟨e, he, hek⟩
      by_contra hne
      rw [if_neg (Ne.symm hne)] at he
      rw [(hm (image key) i).mpr ⟨e, he, hek⟩] at hkey
      nomatch hkey
  · rw [if_neg (by simpa using hk), hm k i]
    refine exists_congr fun e => and_congr_left fun hek => ?_
    split
    · next hi =>
        rw [hi, Array.getElem?_eq_none (Nat.le_refl _), Option.some.injEq]
        refine iff_of_false nofun ?_
        rintro rfl
        exact hk hek
    · exact Iff.rfl

/-- An entry that gets another value keeps its slot. -/
theorem overwrite
    (hm : m.Indexed image) (slot : Nat) (v : Value) :
    Indexed image ⟨m.entries.modify slot fun e => (e.1, v), m.index⟩ := by
  intro k i
  rw [hm k i, Array.getElem?_modify]
  split
  · cases m.entries[i]? with
    | none => simp
    | some e => simp
  · exact Iff.rfl

theorem insert
    (hm : m.Indexed image) (key v : Value) :
    (m.insert (image key) key v).2.Indexed image := by
  rw [KeyedMap.insert]
  cases hslot : m.index[image key]? with
  | none => exact hm.push hslot v
  | some slot => exact hm.overwrite slot v

theorem erase_found
    (hm : m.Indexed image) (key : Value) :
    (m.erase (image key)).1 = m.dictionary.value? image key := by
  rw [← hm.get?_eq key, erase, get?]
  cases m.index[image key]? <;> rfl

/-- Without the one entry at which a test holds. -/
theorem filter_not_eq_eraseIdx
    {l : List (Value × Value)} {p : Value × Value → Bool} (hi : i < l.length)
    (hp : ∀ j e, l[j]? = some e → (p e = true ↔ j = i)) :
    l.filter (fun e => !p e) = l.eraseIdx i := by
  have hsplit : l = l.take i ++ l[i] :: l.drop (i + 1) := by
    rw [List.getElem_cons_drop, List.take_append_drop]
  have hkeep (e : Value × Value) (j : Nat) (hj : l[j]? = some e) (hne : j ≠ i) : (!p e) = true := by
    rw [Bool.not_eq_true', ← Bool.not_eq_true, hp j e hj]
    exact hne
  have hdrop : (!p l[i]) ≠ true := by
    simp [(hp i l[i] (List.getElem?_eq_getElem hi)).mpr rfl]
  conv => lhs; rw [hsplit]
  rw [List.eraseIdx_eq_take_drop_succ, List.filter_append, List.filter_cons, if_neg hdrop,
    List.filter_eq_self.mpr, List.filter_eq_self.mpr]
  · intro e he
    obtain ⟨j, hj⟩ := List.mem_iff_getElem?.mp he
    rw [List.getElem?_drop] at hj
    exact hkeep e _ hj (by omega)
  · intro e he
    obtain ⟨j, hj⟩ := List.mem_iff_getElem?.mp he
    rw [List.getElem?_take] at hj
    split at hj
    · next hji => exact hkeep e j hj (by omega)
    · nomatch hj

theorem dictionary_erase
    (hm : m.Indexed image) (key : Value) :
    (m.erase (image key)).2.dictionary = m.dictionary.without image key := by
  rw [Dictionary.without, erase]
  cases hi : m.index[image key]? with
  | none =>
      refine (List.filter_eq_self.mpr fun e he => ?_).symm
      exact decide_eq_true (hm.ne_image hi he)
  | some i =>
      have hlt : i < m.dictionary.length := hm.slot_lt hi
      have htest (j : Nat) (e : Value × Value) (hj : m.dictionary[j]? = some e) :
          decide (image e.1 = image key) = true ↔ j = i := by
        rw [getElem?_dictionary] at hj
        rw [decide_eq_true_iff, hm.slot_unique hi hj]
      show (m.entries.eraseIdxIfInBounds i).toList = _
      rw [Array.toList_eraseIdxIfInBounds, ← dictionary, ← filter_not_eq_eraseIdx hlt htest]
      exact List.filter_congr fun e _ => (decide_not ..).symm

/-- Where a slot moves when one is taken out. -/
def slotAfter (slot i : Nat) : Nat := if slot < i then i - 1 else i

/-- The entry in a slot comes from one other slot than that which is taken out. -/
theorem exists_slot_before (slot i : Nat) :
    ∃ old, old ≠ slot ∧ (∀ j, j ≠ slot → (slotAfter slot j = i ↔ j = old)) ∧
      ∀ l : List (Value × Value), (l.eraseIdx slot)[i]? = l[old]? := by
  simp only [slotAfter, List.getElem?_eraseIdx]
  by_cases hlt : i < slot
  · refine ⟨i, by omega, fun j hj => ?_, fun l => if_pos hlt⟩
    split <;> omega
  · refine ⟨i + 1, by omega, fun j hj => ?_, fun l => if_neg hlt⟩
    split <;> omega

theorem erase
    (hm : m.Indexed image) (key : Value) :
    (m.erase (image key)).2.Indexed image := by
  rw [KeyedMap.erase]
  cases hslot : m.index[image key]? with
  | none =>
      exact hm
  | some slot =>
      intro k i
      obtain ⟨old, hne, hback, hentry⟩ := exists_slot_before slot i
      show ((m.index.erase (image key)).map fun _ => slotAfter slot)[k]? = some i ↔
        ∃ e, (m.entries.eraseIdxIfInBounds slot)[i]? = some e ∧ image e.1 = k
      rw [Std.HashMap.getElem?_map, Std.HashMap.getElem?_erase, ← Array.getElem?_toList,
        Array.toList_eraseIdxIfInBounds, hentry, Array.getElem?_toList]
      by_cases hk : image key = k
      · subst hk
        rw [if_pos (beq_self_eq_true _)]
        refine iff_of_false nofun ?_
        rintro ⟨e, he, hek⟩
        exact hne ((hm.slot_unique hslot he).mp hek)
      · rw [if_neg (by simpa using hk), Option.map_eq_some_iff, ← hm k old]
        constructor
        · rintro ⟨j, hj, hji⟩
          have hjs : j ≠ slot := by
            rintro rfl
            obtain ⟨e, he, hek⟩ := (hm k j).mp hj
            exact hk (((hm.slot_unique hslot he).mpr rfl).symm.trans hek)
          exact (hback j hjs).mp hji ▸ hj
        · intro hj
          exact ⟨old, hj, (hback old hne).mpr rfl⟩

/-! #### Steps and runs -/

/-- One operation: a map answers as its dictionary, and stays indexed. -/
theorem perform
    {h : Heap} {op : MapOp} (hm : m.Indexed image)
    (himage : ∀ key ∈ op.key?, h.key key = image key) :
    (m.perform h op).1 = (m.dictionary.perform image op).1 ∧
      (m.perform h op).2.dictionary = (m.dictionary.perform image op).2 ∧
      (m.perform h op).2.Indexed image := by
  cases op with
  | insert key v =>
      simp only [KeyedMap.perform, Dictionary.perform, himage key rfl]
      exact ⟨congrArg _ (hm.insert_found key v), hm.dictionary_insert key v, hm.insert key v⟩
  | remove key =>
      simp only [KeyedMap.perform, Dictionary.perform, himage key rfl]
      exact ⟨congrArg _ (hm.erase_found key), hm.dictionary_erase key, hm.erase key⟩
  | get key =>
      simp only [KeyedMap.perform, Dictionary.perform, himage key rfl]
      exact ⟨congrArg _ (hm.get?_eq key), trivial, hm⟩
  | contains key =>
      simp only [KeyedMap.perform, Dictionary.perform, himage key rfl]
      exact ⟨congrArg _ (hm.contains_eq key), trivial, hm⟩
  | size | keys | values | entries =>
      exact ⟨rfl, rfl, hm⟩

theorem runSteps
    {steps : List (Heap × MapOp)} (hm : m.Indexed image)
    (himage : ∀ s ∈ steps, ∀ key ∈ s.2.key?, s.1.key key = image key) :
    (m.runSteps steps).1 = (m.dictionary.performAll image (steps.map (·.2))).1 ∧
      (m.runSteps steps).2.dictionary = (m.dictionary.performAll image (steps.map (·.2))).2 ∧
      (m.runSteps steps).2.Indexed image := by
  induction steps generalizing m with
  | nil =>
      exact ⟨rfl, rfl, hm⟩
  | cons s rest ih =>
      obtain ⟨hanswer, hdictionary, hindexed⟩ :=
        hm.perform (himage s List.mem_cons_self)
      obtain ⟨hanswers, hend, hindexed'⟩ :=
        ih hindexed fun t ht => himage t (List.mem_cons_of_mem _ ht)
      rw [hdictionary] at hanswers hend
      exact ⟨congrArg₂ _ hanswer hanswers, hend, hindexed'⟩

/-- A map has as many entries as there are keys in it. -/
theorem size_eq_ncard
    (hm : m.Indexed image) :
    m.size = {k | m.contains k = true}.ncard := by
  have hnodup : (m.dictionary.map fun e => image e.1).Nodup := by
    rw [List.Nodup, List.pairwise_map, List.pairwise_iff_getElem]
    intro i j hi hj hij heq
    have hi' : m.entries[i]? = some m.dictionary[i] := by
      rw [← getElem?_dictionary, List.getElem?_eq_getElem]
    have hj' : m.entries[j]? = some m.dictionary[j] := by
      rw [← getElem?_dictionary, List.getElem?_eq_getElem]
    have hslot := (hm (image m.dictionary[j].1) i).mpr ⟨_, hi', heq⟩
    have hji := (hm.slot_unique hslot hj').mp rfl
    omega
  have hset : {k | m.contains k = true} =
      ((m.dictionary.map fun e => image e.1).toFinset : Set KeyImage) := by
    ext k
    rw [Set.mem_ofPred_eq, contains, Std.HashMap.contains_eq_isSome_getElem?,
      Option.isSome_iff_exists, List.coe_toFinset, Set.mem_ofPred_eq, List.mem_map]
    constructor
    · rintro ⟨i, hi⟩
      obtain ⟨e, -, hek, hmem⟩ := hm.exists_entry hi
      exact ⟨e, hmem, hek⟩
    · rintro ⟨e, hmem, hek⟩
      obtain ⟨i, hi⟩ := List.mem_iff_getElem?.mp hmem
      rw [getElem?_dictionary] at hi
      exact ⟨i, (hm k i).mpr ⟨e, hi, hek⟩⟩
  rw [hset, Set.ncard_coe_finset, List.toFinset_card_of_nodup hnodup, List.length_map,
    length_dictionary]

end Indexed

/-- Whatever is asked of a map and done to it, from the empty one on and in whatever states of the
program: as long as the images of the keys stay what they are, the map answers as the dictionary of
its entries.  Its index then finds each entry and nothing else, at a slot that there is, and its
size is the number of its keys. -/
theorem runSteps_dictionary
    (steps : List (Heap × MapOp)) (image : Value → KeyImage)
    (himage : ∀ s ∈ steps, ∀ key ∈ s.2.key?, s.1.key key = image key) :
    let r := KeyedMap.empty.runSteps steps
    let d := Dictionary.performAll image [] (steps.map (·.2))
    r.1 = d.1 ∧ r.2.dictionary = d.2 ∧ r.2.Indexed image ∧
      (∀ (k : KeyImage) (i : Nat), r.2.index[k]? = some i → i < r.2.entries.size) ∧
      r.2.size = {k | r.2.contains k = true}.ncard := by
  intro r d
  obtain ⟨hanswers, hdictionary, hindexed⟩ := Indexed.empty.runSteps himage
  exact ⟨hanswers, hdictionary, hindexed, fun k i hi => hindexed.slot_lt hi, hindexed.size_eq_ncard⟩

/-- An overwritten entry keeps its place, and one that comes back is the last. -/
theorem runSteps_dictionary_letters :
    let later : Heap := { Heap.empty with clock := 5 }
    let steps : List (Heap × MapOp) :=
      [(.empty, .insert (.str "b") (.int 1)), (.empty, .insert (.str "a") (.int 2)),
        (later, .insert (.str "b") (.int 3)), (later, .entries), (later, .remove (.str "b")),
        (later, .insert (.str "b") (.int 4)), (later, .entries)]
    (∀ s ∈ steps, ∀ key ∈ s.2.key?, s.1.key key = Heap.empty.key key) ∧
      (KeyedMap.empty.runSteps steps).1 =
        [.found none, .found none, .found (some (.int 1)),
          .pairs [(.str "b", .int 3), (.str "a", .int 2)], .found (some (.int 3)), .found none,
          .pairs [(.str "a", .int 2), (.str "b", .int 4)]] := by
  intro later steps
  have himage : ∀ s ∈ steps, ∀ key ∈ s.2.key?, s.1.key key = Heap.empty.key key := by
    simp [steps, MapOp.key?, Heap.key]
  exact ⟨himage, (runSteps_dictionary steps Heap.empty.key himage).1.trans (by rfl)⟩

end KeyedMap
end ScriptEngine
