import ScriptEngine.Proofs.Stores.Change

/-!
# What fits after a change

The parts of a heap fit a world each for itself: instances, collections, channels, interfaces and classes.
For each part this module tells how it still fits when something is added to it or changes in it as it
may, and that it still fits when the world has more facts of another kind (`Fits.add`).
-/

namespace ScriptEngine

/-! ### Places of the heap after a change -/

section Arrays

variable {α : Type}

theorem getD_push
    (xs : Array α) (a d : α) (i : Nat) :
    (xs.push a).getD i d = if i = xs.size then a else xs.getD i d := by
  simp only [Array.getD_eq_getD_getElem?, Array.getElem?_push]
  split
  · rfl
  · rfl

theorem getD_modify
    (xs : Array α) (i : Nat) (f : α → α) (d : α) (j : Nat) :
    (xs.modify i f).getD j d = if i = j ∧ j < xs.size then f (xs.getD j d) else xs.getD j d := by
  simp only [Array.getD_eq_getD_getElem?, Array.getElem?_modify]
  by_cases hij : i = j
  · by_cases hj : j < xs.size
    · simp [hij, hj]
    · simp [hij, hj]
  · simp [hij]

theorem mem_modify
    {xs : Array α} {i : Nat} {f : α → α} {b : α} (hb : b ∈ xs.modify i f) :
    b ∈ xs ∨ ∃ a, xs[i]? = some a ∧ b = f a := by
  obtain ⟨j, hj, rfl⟩ := Array.mem_iff_getElem.mp hb
  rw [Array.size_modify] at hj
  rw [Array.getElem_modify]
  split
  · next heq =>
      subst heq
      exact .inr ⟨_, Array.getElem?_eq_getElem hj, rfl⟩
  · exact .inl (Array.getElem_mem _)

theorem Knows.push
    [Carrier α] {w : World} {l : Array α} {a : α} (hl : Knows w l) (ha : Knows w a) :
    Knows w (l.push a) := by
  refine knows_array.mpr fun b hb => ?_
  rcases Array.mem_push.mp hb with hb | rfl
  · exact hl.of_mem_array hb
  · exact ha

theorem Knows.modify
    [Carrier α] {w : World} {l : Array α} {i : Nat} {f : α → α} (hl : Knows w l)
    (hf : ∀ a, l[i]? = some a → Knows w a → Knows w (f a)) :
    Knows w (l.modify i f) := by
  refine knows_array.mpr fun b hb => ?_
  rcases mem_modify hb with hold | ⟨a, ha, rfl⟩
  · exact hl.of_mem_array hold
  · exact hf a ha (hl.of_mem_array (Array.mem_of_getElem? ha))

theorem getElem?_eq_getD
    {xs : Array α} {i : Nat} {a : α} (ha : xs[i]? = some a) (d : α) :
    a = xs.getD i d := by
  rw [Array.getD_eq_getD_getElem?, ha, Option.getD_some]

end Arrays

namespace Heap

variable {h : Heap}

theorem object_push
    (h : Heap) (t : Traced ObjectState) (id : Nat) :
    Heap.object { h with objects := h.objects.push t } id =
      if id = h.objects.size then t.now else h.object id := by
  rw [object, getD_push]
  split
  · rfl
  · rfl

theorem object_modify
    (h : Heap) (i : Nat) (f : ObjectState → ObjectState) (id : Nat) :
    (h.modifyObject i f).object id =
      if i = id ∧ id < h.objects.size then f (h.object id) else h.object id := by
  rw [object, modifyObject, getD_modify]
  split
  · rfl
  · rfl

theorem staticsOf_push
    (h : Heap) (t : Traced Statics) (id : Nat) :
    Heap.staticsOf { h with statics := h.statics.push t } id =
      if id = h.statics.size then t.now else h.staticsOf id := by
  rw [staticsOf, getD_push]
  split
  · rfl
  · rfl

theorem staticsOf_modify
    (h : Heap) (i : Nat) (f : Statics → Statics) (id : Nat) :
    (h.modifyStatics i f).staticsOf id =
      if i = id ∧ id < h.statics.size then f (h.staticsOf id) else h.staticsOf id := by
  rw [staticsOf, modifyStatics, getD_modify]
  split
  · rfl
  · rfl

/-- It is told of an instance what befalls it by code that runs on it. -/
theorem tellReceiver_eq
    {o : Instance} {c : ClassDef} {id : ScopeId} (closure : Env) (e : ClassDef → BuildEvent)
    (hr : h.scopes.receiverAt? id = some ⟨o, c⟩) :
    h.tellReceiver (id :: closure) e = h.tell o (e c) := by
  have hreceiver : h.scopes.receiver (id :: closure) = some ⟨o, c⟩ := by
    obtain ⟨⟨n, r, ds⟩, hframe, hr⟩ := Option.bind_eq_some_iff.mp hr
    dsimp only at hr
    rw [Scopes.receiver, hframe, hr]
  rw [tellReceiver, hreceiver]

end Heap

/-! ### Growing worlds -/

section Growing

variable {w w' : World}

theorem Meaning.mono
    {bs : Bindings} (hbs : Meaning w bs) (hw : w ⊆ w') :
    Meaning w' bs := by
  cases hbs with
  | plain =>
      exact .plain
  | within o name ho =>
      exact .within o name (hw ho)

theorem Binding.Obeys.mono
    {b : Binding} (hb : b.Obeys w) (hw : w ⊆ w') :
    b.Obeys w' := by
  intro t ht
  obtain ⟨bs, hbs, hobeys⟩ := hb t ht
  exact ⟨bs, hbs.mono hw, hobeys⟩

theorem Statics.Numbered.mono
    {s : Statics} {id : Nat} (hs : s.Numbered w id) (hw : w ⊆ w') :
    s.Numbered w' id := by
  refine ⟨fun i v hv => ?_, hs.slots⟩
  obtain ⟨o, name, heq, ho, hrest⟩ := hs.constants i v hv
  exact ⟨o, name, heq, ho.mono hw, hrest⟩

end Growing

/-! ### The course of a construction -/

namespace BuildEvent

variable {e : BuildEvent} {left : List BuildEvent} {id : Nat} {name : String}

theorem AllFilled.of_cons
    (hfilled : AllFilled (e :: left)) :
    AllFilled left := by
  rcases hfilled with heq | heq
  · cases heq
  · cases heq
    exact .inl rfl

theorem AllFilled.fieldsOf
    (hfilled : AllFilled left) :
    fieldsOf left = ∅ := by
  refine Set.eq_empty_of_forall_notMem fun name ⟨id, hmem⟩ => ?_
  rcases hfilled with rfl | rfl
  · cases hmem
  · cases List.mem_singleton.mp hmem

/-- What is left after a part of the course of a construction that fills all fields. -/
theorem AllFilled.fillings
    {c : ClassDef} {told : List BuildEvent} (hfilled : AllFilled left)
    (hcourse : told ++ left = c.course) :
    c.fillings <+: told := by
  rcases hfilled with rfl | rfl
  · rw [List.append_nil] at hcourse
    rw [hcourse]
    exact List.prefix_append _ _
  · exact List.append_cancel_right hcourse ▸ List.prefix_rfl

end BuildEvent

/-! ### The fields of an instance -/

/-- A field gets a value that obeys its type; the others obey theirs as before. -/
theorem Instance.FieldsObey.insert
    {o : Instance} {name : String} {v : Value} {fields : Assoc Value} {names names' : Set String}
    (hs : o.FieldsObey fields names) (hnames : ∀ other ∈ names', other ≠ name → other ∈ names)
    (hv : name ∈ names' → o.Admits name v) :
    o.FieldsObey (fields.insert name v) names' := by
  intro other hother u hu
  rw [Assoc.find?_insert] at hu
  split at hu
  · next heq =>
      cases hu
      subst heq
      exact hv hother
  · next hne =>
      exact hs other (hnames other hother (Ne.symm hne)) u hu

namespace ObjectState

variable {s s' s'' : ObjectState}

theorem Precedes.refl
    (s : ObjectState) :
    s.Precedes s := by
  exact ⟨rfl, id, fun _ _ _ => rfl⟩

theorem Precedes.trans
    (h₁ : s.Precedes s') (h₂ : s'.Precedes s'') :
    s.Precedes s'' where
  self := h₂.self.trans h₁.self
  finished hdone := h₂.finished (h₁.finished hdone)
  fields hdone name himmutable := by
    have hsame := h₂.fields (h₁.finished hdone) name (h₁.self ▸ himmutable)
    exact hsame.trans (h₁.fields hdone name himmutable)

/-- A field is given a value that it may take. -/
theorem Precedes.insert
    {name : String} (v : Value) (hmay : s.self.Immutable name → s.constructing = true) :
    s.Precedes { s with fields := s.fields.insert name v } where
  self := rfl
  finished hdone := hdone
  fields hdone other hother := by
    have hne : name ≠ other := by
      rintro rfl
      rw [hmay hother] at hdone
      cases hdone
    rw [Assoc.find?_insert, if_neg hne]

/-- A field is given a value that obeys its type. -/
theorem Obey.insert
    {name : String} {v : Value} (hs : s.Obey) (hkind : s.self.cls.kind ≠ .record)
    (hbuilt : s.built = true → s.self.Admits name v)
    (honce : s.self.DeclaresOnce name → s.self.Admits name v) :
    Obey { s with fields := s.fields.insert name v } where
  fields _ hb := (hs.fields hkind hb).insert (fun _ hother _ => hother) fun _ => hbuilt hb
  once _ := (hs.once hkind).insert (fun _ hother _ => hother) honce
  components hrecord := absurd hrecord hkind

/-- A field is given a value that obeys its type. -/
theorem Proper.insert
    {name : String} {v : Value} (hs : s.Proper) (hkind : s.self.cls.kind ≠ .record)
    (hbuilt : s.built = true → s.self.Admits name v)
    (honce : s.self.DeclaresOnce name → s.self.Admits name v) :
    Proper { s with fields := s.fields.insert name v } := by
  exact ⟨hs.obey.insert hkind hbuilt honce, hs.onCourse.course, hs.onCourse.filled⟩

end ObjectState

namespace Statics

variable {s s' s'' : Statics}

theorem Precedes.trans
    (h₁ : s.Precedes s') (h₂ : s'.Precedes s'') :
    s.Precedes s'' where
  declared hd := h₂.declared (h₁.declared hd)
  slots hd name slot hslot himmutable :=
    h₂.slots (h₁.declared hd) name slot (h₁.slots hd name slot hslot himmutable) himmutable
  constants hd := (h₂.constants (h₁.declared hd)).trans (h₁.constants hd)

/-- As long as a type is not declared, its static fields may change in any way. -/
theorem Precedes.of_declaring
    (hs : s.declared = false) :
    s.Precedes s' := by
  refine ⟨fun hd => ?_, fun hd => ?_, fun hd => ?_⟩ <;> rw [hs] at hd <;> cases hd

/-- A static field is given a value that may have any number of them. -/
theorem Precedes.insert
    {name : String} {slot : StaticField} (hfind : s.slots.find? name = some slot)
    (hslot : slot.kind.isImmutable = false) (v : Value) :
    s.Precedes { s with slots := s.slots.insert name { slot with value := v } } where
  declared hd := hd
  slots _ other other' hother himmutable := by
    have hne : name ≠ other := by
      rintro rfl
      rw [hfind] at hother
      cases hother
      rw [hslot] at himmutable
      cases himmutable
    rw [Assoc.find?_insert, if_neg hne]
    exact hother
  constants _ := rfl

/-- A static field is given a value that obeys its type. -/
theorem Obey.insert
    {name : String} {slot : StaticField} (hs : s.Obey) (hslot : ObeysOption slot.value slot.type []) :
    Obey { s with slots := s.slots.insert name slot } := by
  intro other slot' hfind
  rw [Assoc.find?_insert] at hfind
  split at hfind
  · cases hfind
    exact hslot
  · exact hs other slot' hfind

end Statics

/-! ### What fits after a change -/

theorem Knows.setField
    {w : World} {s : ObjectState} {name : String} {v : Value} (hs : Knows w s) (hv : Knows w v) :
    Knows w { s with fields := s.fields.insert name v } := by
  exact Knows.insert (m := s.fields) hs hv

namespace Orderly

variable {α : Type} {R : α → α → Prop} {P : α → Prop} {ts : Array (Traced α)}

theorem push
    {a : α} (hs : Orderly R P ts) (ha : P a) :
    Orderly R P (ts.push (.new a)) where
  kept t ht := by
    rcases Array.mem_push.mp ht with hold | rfl
    · exact hs.kept t hold
    · exact Traced.kept_new R a
  each t ht := by
    rcases Array.mem_push.mp ht with hold | rfl
    · exact hs.each t hold
    · simpa using ha

theorem modify
    [Inhabited α] {i : Nat} {f : α → α} (hs : Orderly R P ts)
    (htrans : ∀ {a b c}, R a b → R b c → R a c)
    (hf : P (ts.getD i default).now →
      R (ts.getD i default).now (f (ts.getD i default).now) ∧ P (f (ts.getD i default).now)) :
    Orderly R P (ts.modify i (·.change f)) := by
  have hplace {t : Traced α} (ht : ts[i]? = some t) : R t.now (f t.now) ∧ P (f t.now) := by
    have hnow := hs.each t (Array.mem_of_getElem? ht) t.now List.mem_cons_self
    rw [getElem?_eq_getD ht default] at hnow ⊢
    exact hf hnow
  refine ⟨fun t ht => ?_, fun t ht => ?_⟩
  · rcases mem_modify ht with hold | ⟨u, hu, rfl⟩
    · exact hs.kept t hold
    · exact (hs.kept u (Array.mem_of_getElem? hu)).change htrans (hplace hu).1
  · rcases mem_modify ht with hold | ⟨u, hu, rfl⟩
    · exact hs.each t hold
    · intro a ha
      rw [Traced.states_change, List.mem_cons] at ha
      rcases ha with rfl | ha
      · exact (hplace hu).2
      · exact hs.each u (Array.mem_of_getElem? hu) a ha

end Orderly

namespace ObjectsFit

variable {w w' : World} {objects : Array (Traced ObjectState)}

theorem eq
    {o o' : Instance} (hf : ObjectsFit w objects) (ho : .object o ∈ w) (ho' : .object o' ∈ w)
    (hid : o.id = o'.id) :
    o = o' := by
  rw [← hf.self ho, hid, hf.self ho']

/-- Only the facts about instances matter. -/
theorem anti
    (hf : ObjectsFit w objects) (hw : ∀ o, .object o ∈ w' → .object o ∈ w) :
    ObjectsFit w' objects where
  lt ho := hf.lt (hw _ ho)
  self ho := hf.self (hw _ ho)
  orderly := hf.orderly

/-- A further instance gets known. -/
theorem push
    {s : ObjectState} (hf : ObjectsFit w objects) (hid : s.self.id = objects.size)
    (hs : s.Proper) :
    ObjectsFit (w ∪ {.object s.self}) (objects.push (.new s)) := by
  have hsplit {o : Instance} (ho : .object o ∈ w ∪ {.object s.self}) :
      .object o ∈ w ∨ o = s.self := by
    simpa only [Set.mem_union, Set.mem_singleton_iff, Fact.object.injEq] using ho
  refine ⟨fun ho => ?_, fun ho => ?_, hf.orderly.push hs⟩
  · rw [Array.size_push]
    rcases hsplit ho with hold | rfl
    · exact Nat.lt_succ_of_lt (hf.lt hold)
    · omega
  · rw [getD_push]
    rcases hsplit ho with hold | rfl
    · rw [if_neg (hf.lt hold).ne]
      exact hf.self hold
    · rw [if_pos hid]
      rfl

/-- An instance changes as it may. -/
theorem modify
    {i : Nat} {f : ObjectState → ObjectState} (hf : ObjectsFit w objects)
    (hnow : (objects.getD i default).now.Proper →
      (objects.getD i default).now.Precedes (f (objects.getD i default).now) ∧
        (f (objects.getD i default).now).Proper) :
    ObjectsFit w (objects.modify i (·.change f)) where
  lt ho := by
    rw [Array.size_modify]
    exact hf.lt ho
  self ho := by
    rw [getD_modify]
    split
    · next heq =>
        obtain ⟨rfl, hlt⟩ := heq
        have hobey := hf.orderly.each _ (Array.getElem_mem hlt) _ List.mem_cons_self
        rw [getElem?_eq_getD (Array.getElem?_eq_getElem hlt) default] at hobey
        exact (hnow hobey).1.self.trans (hf.self ho)
    · exact hf.self ho
  orderly := hf.orderly.modify .trans hnow

end ObjectsFit

/-- A new collection is of its kind. -/
theorem Collection.takes_empty
    (c : Collection) :
    c.Takes (Heap.emptyData c.kind) := by
  obtain ⟨id, kind, typeArgs⟩ := c
  cases kind <;> simp [Heap.emptyData, Takes, KeyedMap.empty]

theorem knows_emptyData
    (w : World) (kind : CollectionKind) :
    Knows w (Heap.emptyData kind) := by
  cases kind <;> simp [Heap.emptyData, Knows, carried, KeyedMap.empty]

namespace CollectionsFit

variable {w w' : World} {collections : Array CollectionContents}

/-- Only the facts about collections matter. -/
theorem anti
    (hf : CollectionsFit w collections) (hw : ∀ c, .collection c ∈ w' → .collection c ∈ w) :
    CollectionsFit w' collections where
  lt hc := hf.lt (hw _ hc)
  eq hc hc' := hf.eq (hw _ hc) (hw _ hc')
  takes hc := hf.takes (hw _ hc)

/-- A further collection, which is empty. -/
theorem push
    {c : Collection} (hf : CollectionsFit w collections) (hid : c.id = collections.size) :
    CollectionsFit (w ∪ {.collection c}) (collections.push (Heap.emptyData c.kind)) := by
  have hsplit {c' : Collection} (hc : .collection c' ∈ w ∪ {.collection c}) :
      .collection c' ∈ w ∨ c' = c := by
    simpa only [Set.mem_union, Set.mem_singleton_iff, Fact.collection.injEq] using hc
  refine ⟨fun hc => ?_, fun hc hc' heq => ?_, fun hc => ?_⟩
  · rw [Array.size_push]
    rcases hsplit hc with hold | rfl
    · exact Nat.lt_succ_of_lt (hf.lt hold)
    · omega
  · rcases hsplit hc with hold | rfl
    · rcases hsplit hc' with hold' | rfl
      · exact hf.eq hold hold' heq
      · exact absurd (heq.trans hid) (hf.lt hold).ne
    · rcases hsplit hc' with hold' | rfl
      · exact absurd (heq.symm.trans hid) (hf.lt hold').ne
      · rfl
  · rw [getD_push]
    rcases hsplit hc with hold | rfl
    · rw [if_neg (hf.lt hold).ne]
      exact hf.takes hold
    · rw [if_pos hid]
      exact Collection.takes_empty _

/-- The elements of a collection change. -/
theorem modify
    {c : Collection} {f : CollectionContents → CollectionContents}
    (hf : CollectionsFit w collections) (hknown : Knows w collections) (hc : .collection c ∈ w)
    (hdata : ∀ d, Knows w d → c.Takes d → Knows w (f d) ∧ c.Takes (f d)) :
    CollectionsFit w (collections.modify c.id f) where
  lt hc' := by
    rw [Array.size_modify]
    exact hf.lt hc'
  eq := hf.eq
  takes hc' := by
    rw [getD_modify]
    split
    · next heq =>
        obtain rfl := hf.eq hc hc' heq.1
        exact (hdata _ (hknown.array_getD (knows_emptyData w .list) _) (hf.takes hc)).2
    · exact hf.takes hc'

end CollectionsFit

namespace ChannelsFit

variable {w w' : World} {u u' : Hub Value}

/-- Only the facts about channels matter. -/
theorem anti
    (hf : ChannelsFit w u) (hw : ∀ id t, .channel id t ∈ w' → .channel id t ∈ w) :
    ChannelsFit w' u where
  lt hid := hf.lt (hw _ _ hid)
  eq hid hid' := hf.eq (hw _ _ hid) (hw _ _ hid')
  obey hid := hf.obey (hw _ _ hid)

/-- A further channel, which is empty. -/
theorem add
    (hf : ChannelsFit w u) (t : Option TypeExpr) (capacity : Option Nat) :
    ChannelsFit (w ∪ {.channel u.channels.size t}) (u.add capacity).2 := by
  have hsplit {id : Nat} {t' : Option TypeExpr}
      (hid : .channel id t' ∈ w ∪ {.channel u.channels.size t}) :
      .channel id t' ∈ w ∨ id = u.channels.size ∧ t' = t := by
    simpa only [Set.mem_union, Set.mem_singleton_iff, Fact.channel.injEq] using hid
  refine ⟨fun hid => ?_, fun hid hid' => ?_, fun hid => ?_⟩
  · simp only [Hub.add, Array.size_push]
    rcases hsplit hid with hold | ⟨rfl, -⟩
    · exact Nat.lt_succ_of_lt (hf.lt hold)
    · omega
  · rcases hsplit hid with hold | ⟨heq, rfl⟩
    · rcases hsplit hid' with hold' | ⟨heq', -⟩
      · exact hf.eq hold hold'
      · exact absurd heq' (hf.lt hold).ne
    · rcases hsplit hid' with hold' | ⟨-, rfl⟩
      · exact absurd heq (hf.lt hold').ne
      · rfl
  · simp only [Hub.channel, Hub.add, getD_push]
    rcases hsplit hid with hold | ⟨rfl, -⟩
    · rw [if_neg (hf.lt hold).ne]
      exact hf.obey hold
    · simp [Channel.ofCapacity]

/-- Values come into channels only if they obey the type, and others are taken out. -/
theorem step
    (hf : ChannelsFit w u) (hsize : u.channels.size ≤ u'.channels.size)
    (hqueue : ∀ id, ∀ v ∈ (u'.channel id).queue, v ∈ (u.channel id).queue ∨
      ∀ t, .channel id t ∈ w → ObeysOption v t []) :
    ChannelsFit w u' where
  lt hid := (hf.lt hid).trans_le hsize
  eq := hf.eq
  obey hid v hv := by
    rcases hqueue _ v hv with hold | hnew
    · exact hf.obey hid v hold
    · exact hnew _ hid

end ChannelsFit

namespace InterfacesFit

variable {w w' : World} {room room' : Nat}

/-- Only the facts about interfaces matter. -/
theorem anti
    (hf : InterfacesFit w room) (hw : ∀ i, .interface i ∈ w' → .interface i ∈ w) :
    InterfacesFit w' room where
  lt hi := hf.lt (hw _ hi)
  coherent i hi j hj := hf.coherent i (hw _ hi) j (hw _ hj)

theorem mono
    (hf : InterfacesFit w room) (hroom : room ≤ room') :
    InterfacesFit w room' where
  lt hi := (hf.lt hi).trans_le hroom
  coherent := hf.coherent

/-- A further interface gets the next number. -/
theorem push
    {i : Interface} (hf : InterfacesFit w room) (hid : i.own.id = room) :
    InterfacesFit (w ∪ {.interface i}) (room + 1) := by
  have hsplit {j : Interface} (hj : .interface j ∈ w ∪ {.interface i}) :
      .interface j ∈ w ∨ j = i := by
    simpa only [Set.mem_union, Set.mem_singleton_iff, Fact.interface.injEq] using hj
  refine ⟨fun hj => ?_, fun j hj k hk heq => ?_⟩
  · rcases hsplit hj with hold | rfl
    · exact Nat.lt_succ_of_lt (hf.lt hold)
    · omega
  · rcases hsplit hj with hold | rfl
    · rcases hsplit hk with hold' | rfl
      · exact hf.coherent j hold k hold' heq
      · exact absurd (heq.trans hid) (hf.lt hold).ne
    · rcases hsplit hk with hold' | rfl
      · exact absurd (heq.symm.trans hid) (hf.lt hold').ne
      · rfl

end InterfacesFit

namespace ClassesFit

variable {w w' : World} {room room' : Nat}

/-- Only the facts about classes matter. -/
theorem congr
    (hf : ClassesFit w room) (hw : ∀ c, .cls c ∈ w' ↔ .cls c ∈ w) :
    ClassesFit w' room where
  lt hc := hf.lt ((hw _).mp hc)
  eq hc hc' := hf.eq ((hw _).mp hc) ((hw _).mp hc')
  up hc d hd := (hw d).mpr (hf.up ((hw _).mp hc) d hd)

theorem mono
    (hf : ClassesFit w room) (hroom : room ≤ room') :
    ClassesFit w room' where
  lt hc := (hf.lt hc).trans_le hroom
  eq := hf.eq
  up := hf.up

/-- A further class gets the next number. -/
theorem push
    {c : ClassDef} (hf : ClassesFit w room) (hid : c.id = room)
    (hup : ∀ d ∈ c.lineage, d = c ∨ .cls d ∈ w) :
    ClassesFit (w ∪ {.cls c}) (room + 1) := by
  have hsplit {d : ClassDef} (hd : .cls d ∈ w ∪ {.cls c}) : .cls d ∈ w ∨ d = c := by
    simpa only [Set.mem_union, Set.mem_singleton_iff, Fact.cls.injEq] using hd
  refine ⟨fun hd => ?_, fun hd hd' heq => ?_, fun hd e he => ?_⟩
  · rcases hsplit hd with hold | rfl
    · exact Nat.lt_succ_of_lt (hf.lt hold)
    · omega
  · rcases hsplit hd with hold | rfl
    · rcases hsplit hd' with hold' | rfl
      · exact hf.eq hold hold' heq
      · exact absurd (heq.trans hid) (hf.lt hold).ne
    · rcases hsplit hd' with hold' | rfl
      · exact absurd (heq.symm.trans hid) (hf.lt hold').ne
      · rfl
  · rcases hsplit hd with hold | rfl
    · exact .inl (hf.up hold e he)
    · rcases hup e he with rfl | hold
      · exact .inr rfl
      · exact .inl hold

end ClassesFit

namespace NamesFit

variable {w w' : World} {declared : List String}

/-- Only the facts about types matter. -/
theorem anti
    (hf : NamesFit w declared) (hw : ∀ t : TypeDef, t.fact ∈ w' → t.fact ∈ w) :
    NamesFit w' declared where
  mem ht := hf.mem (hw _ ht)
  eq hdeclared _ _ ht hu := hf.eq hdeclared (hw _ ht) (hw _ hu)

/-- A further name is declared. -/
theorem cons
    (hf : NamesFit w declared) (name : String) :
    NamesFit w (name :: declared) where
  mem ht := List.mem_cons_of_mem name (hf.mem ht)
  eq hdeclared _ _ ht hu := hf.eq (List.nodup_cons.mp hdeclared).2 ht hu

/-- A further type is declared under its name. -/
theorem push
    (hf : NamesFit w declared) (t : TypeDef) :
    NamesFit (w ∪ {t.fact}) (t.name :: declared) := by
  have hsplit {u : TypeDef} (hu : u.fact ∈ w ∪ {t.fact}) : u.fact ∈ w ∨ u = t := by
    refine hu.imp_right fun heq => ?_
    cases t <;> cases u <;> cases heq <;> rfl
  refine ⟨fun hu => ?_, fun hdeclared u v hu hv heq => ?_⟩
  · rcases hsplit hu with hold | rfl
    · exact List.mem_cons_of_mem _ (hf.mem hold)
    · exact List.mem_cons_self
  · obtain ⟨hnew, hdeclared⟩ := List.nodup_cons.mp hdeclared
    rcases hsplit hu with hold | rfl
    · rcases hsplit hv with hold' | rfl
      · exact hf.eq hdeclared hold hold' heq
      · exact absurd (heq ▸ hf.mem hold) hnew
    · rcases hsplit hv with hold' | rfl
      · exact absurd (heq ▸ hf.mem hold') hnew
      · rfl

end NamesFit

/-- No constants have been added yet, and no static field has been filled. -/
theorem Statics.numbered_default
    (w : World) (id : Nat) :
    (default : Statics).Numbered w id := by
  refine ⟨fun i v hv => ?_, fun name _ => rfl⟩
  cases hv

/-! ### A further fact -/

/-- What the facts of its kind are about fits them together with a further one. -/
def Fact.Fits (w : World) (h : Heap) (fact : Fact) : Prop :=
  match fact with
  | .object _ => ObjectsFit (w ∪ {fact}) h.objects
  | .collection _ => CollectionsFit (w ∪ {fact}) h.collections
  | .channel _ _ => ChannelsFit (w ∪ {fact}) h.hub
  | .interface _ => InterfacesFit (w ∪ {fact}) h.statics.size ∧ NamesFit (w ∪ {fact}) h.declared
  | .cls _ => ClassesFit (w ∪ {fact}) h.statics.size ∧ NamesFit (w ∪ {fact}) h.declared
  | .frame id r => h.scopes.receiverAt? id = some r

/-- A heap that fits is as the world tells it with one fact more, if that fact fits. -/
theorem Fits.add
    {w : World} {h : Heap} (hf : Fits w h) (fact : Fact) (hfact : fact.Fits w h) :
    Fits (w ∪ {fact}) h where
  known := hf.known.mono Set.subset_union_left
  bound hb := (hf.bound hb).mono Set.subset_union_left
  frames hframe := by
    rcases hframe with hold | rfl
    · exact hf.frames hold
    · exact hfact
  objects := by
    cases fact with
    | object => exact hfact
    | _ => exact hf.objects.anti fun o ho => by simpa using ho
  owners id hfilled := .inl (hf.owners id hfilled)
  collections := by
    cases fact with
    | collection => exact hfact
    | _ => exact hf.collections.anti fun c hc => by simpa using hc
  channels := by
    cases fact with
    | channel => exact hfact
    | _ => exact hf.channels.anti fun id t hid => by simpa using hid
  statics := hf.statics
  numbered id s hmem := (hf.numbered id s hmem).mono Set.subset_union_left
  interfaces := by
    cases fact with
    | interface => exact hfact.1
    | _ => exact hf.interfaces.anti fun i hi => by simpa using hi
  classes := by
    cases fact with
    | cls => exact hfact.1
    | _ => exact hf.classes.congr fun c => by simp
  names := by
    cases fact with
    | cls => exact hfact.2
    | interface => exact hfact.2
    | _ => exact hf.names.anti fun t ht => by cases t <;> simpa [TypeDef.fact] using ht
  registry := hf.registry

end ScriptEngine
