import ScriptEngine.Proofs.Stores.Sequences

/-!
# Collections that keep the stores

A collection checks what it takes.  What it stores later has passed the check, or it has been in the
collection already, so that every change of its contents preserves `Collection.Takes`.
-/

namespace ScriptEngine

variable {S : World} {E : Engine} {args : List Value} {v : Value} {c : Collection}

/-- What is in a map after an insertion: an old entry, or one with the new value whose key is the new
one or an old one. -/
theorem KeyedMap.mem_entries_insert
    {m : KeyedMap} {k : KeyImage} {key : Value} {e : Value × Value}
    (he : e ∈ (m.insert k key v).2.entries) :
    e ∈ m.entries ∨ e.2 = v ∧ (e.1 = key ∨ ∃ old ∈ m.entries, e.1 = old.1) := by
  rw [insert] at he
  split at he
  · next slot heq =>
      obtain ⟨i, hi⟩ := Array.mem_iff_getElem?.mp he
      rw [Array.getElem?_modify] at hi
      split at hi
      · obtain ⟨old, hold, rfl⟩ := Option.map_eq_some_iff.mp hi
        exact .inr ⟨rfl, .inr ⟨old, Array.mem_of_getElem? hold, rfl⟩⟩
      · exact .inl (Array.mem_of_getElem? hi)
  · rcases Array.mem_push.mp he with hold | rfl
    · exact .inl hold
    · exact .inr ⟨rfl, .inl rfl⟩

namespace Keeps.Seen

variable {h : Heap}

/-- What is found in a collection obeys its type arguments. -/
theorem takes
    (hseen : Seen S h) (hc : Knows S c) :
    c.Takes (h.collection c.id) := by
  obtain ⟨w, hS, hf⟩ := hseen
  exact hf.collections.takes (knows_collectionFact.mp (hc.mono hS))

theorem takesItem
    (hseen : Seen S h) (hc : Knows S c) (hv : v ∈ Builtin.sequenceItems h c) :
    c.TakesItem v := by
  have htakes := hseen.takes hc
  rw [Builtin.sequenceItems] at hv
  split at hv
  · next xs heq =>
      rw [heq] at htakes
      exact htakes.2 v hv
  · simp at hv

end Keeps.Seen

namespace Builtin

variable {w : World} {h : Heap}

@[grind ←]
theorem knows_sequenceItems
    (hh : Knows w h) (c : Collection) :
    Knows w (sequenceItems h c) := by
  have hcontents := hh.collection c.id
  rw [sequenceItems]
  split
  · next xs heq =>
      rw [heq] at hcontents
      exact hcontents
  · exact knows_toArray.mpr knows_nil

@[grind ←]
theorem knows_mapEntries
    (hh : Knows w h) (c : Collection) :
    Knows w (mapEntries h c) := by
  have hcontents := hh.collection c.id
  rw [mapEntries]
  split
  · exact KeyedMap.knows_empty
  · next m heq =>
      rw [heq] at hcontents
      exact hcontents

/-- A value is taken that has passed the check. -/
theorem takesItem_of_elementFault?
    {key : Option Value} (hkind : c.kind ≠ .map) (hnone : elementFault? h c key v = none) :
    c.TakesItem v := by
  intro t ht
  refine .of_conforms (h := h) ?_
  by_contra hnot
  cases hother : c.kind with
  | map =>
      exact hkind hother
  | list | set | deque =>
      simp [elementFault?, hother, ht, hnot] at hnone

/-- A key and a value are taken that have passed the check. -/
theorem takesEntry_of_elementFault?
    {key : Value} (hkind : c.kind = .map) (hnone : elementFault? h c (some key) v = none) :
    c.TakesEntry key v := by
  simp only [elementFault?, hkind, Option.bind_some, Option.orElse_eq_orElse, Option.orElse_eq_or,
    Option.or_eq_none_iff] at hnone
  obtain ⟨hkey, hv⟩ := hnone
  refine ⟨fun t ht => .of_conforms (h := h) ?_, fun t ht => .of_conforms (h := h) ?_⟩
  · by_contra hnot
    simp [ht, hnot] at hkey
  · by_contra hnot
    simp [ht, hnot] at hv

end Builtin

namespace Keeps

/-! ### Changes of the contents -/

theorem checkElement
    (c : Collection) (key : Option Value) (v : Value) :
    Keeps S (Builtin.checkElement c key v) fun _ => (c.kind ≠ .map → c.TakesItem v) ∧
      (c.kind = .map → ∀ k, key = some k → c.TakesEntry k v) := by
  refine heap.bind fun h _ => (unlessFault _).imp fun _ hnone => ⟨fun hkind => ?_, fun hkind k hk => ?_⟩
  · exact Builtin.takesItem_of_elementFault? hkind hnone
  · subst hk
    exact Builtin.takesEntry_of_elementFault? hkind hnone

/-- Elements are stored that are taken. -/
theorem storeItems
    {f : Array Value → Array Value} (vs : List Value) (hc : Knows S c) (hvs : Knows S vs)
    (htakes : c.kind ≠ .map → ∀ v ∈ vs, c.TakesItem v)
    (hf : ∀ xs, ∀ v ∈ f xs, v ∈ xs ∨ v ∈ vs) :
    Keeps S (Builtin.changeItems c f) := by
  refine modify fun k w h hS _ => ⟨w, .one (.elements ?_ fun d hd htaken => ?_)⟩
  · exact knows_collectionFact.mp (hc.mono hS)
  · cases d with
    | items xs =>
        refine ⟨knows_array.mpr fun v hv => ?_, htaken.1, fun v hv => ?_⟩
        · rcases hf xs v hv with hold | hnew
          · exact Knows.of_mem_array (l := xs) hd hold
          · exact (hvs.mono hS).of_mem hnew
        · rcases hf xs v hv with hold | hnew
          · exact htaken.2 v hold
          · exact htakes htaken.1 v hnew
    | entries m =>
        exact ⟨hd, htaken⟩

/-- Elements are taken out. -/
theorem dropItems
    {f : Array Value → Array Value} (hc : Knows S c) (hf : ∀ xs, ∀ v ∈ f xs, v ∈ xs) :
    Keeps S (Builtin.changeItems c f) := by
  exact storeItems [] hc knows_nil (fun _ v hv => by cases hv) fun xs v hv => .inl (hf xs v hv)

/-- An element is stored that is taken. -/
theorem storeItem
    {f : Array Value → Array Value} (hc : Knows S c) (hv : Knows S v)
    (htakes : c.kind ≠ .map → c.TakesItem v) (hf : ∀ xs, ∀ u ∈ f xs, u ∈ xs ∨ u = v) :
    Keeps S (Builtin.changeItems c f) := by
  refine storeItems [v] hc (by simpa using hv) (by simpa using htakes) ?_
  simpa using hf

/-- An entry is stored that is taken. -/
theorem storeEntry
    {key : Value} (k : KeyImage) (hc : Knows S c) (hkey : Knows S key) (hv : Knows S v)
    (htakes : c.kind = .map → c.TakesEntry key v) :
    Keeps S (Builtin.changeEntries c fun m => (m.insert k key v).2) := by
  refine modify fun _ w h hS _ => ⟨w, .one (.elements ?_ fun d hd htaken => ?_)⟩
  · exact knows_collectionFact.mp (hc.mono hS)
  · cases d with
    | items xs =>
        exact ⟨hd, htaken⟩
    | entries m =>
        refine ⟨KeyedMap.knows_insert hd (hkey.mono hS) (hv.mono hS), htaken.1, fun e he => ?_⟩
        have hnew := htakes htaken.1
        rcases KeyedMap.mem_entries_insert he with hold | ⟨hvalue, hkey | ⟨old, hold, hkey⟩⟩
        · exact htaken.2 e hold
        · exact ⟨hkey ▸ hnew.1, hvalue ▸ hnew.2⟩
        · exact ⟨hkey ▸ (htaken.2 old hold).1, hvalue ▸ hnew.2⟩

/-- Entries are taken out. -/
theorem dropEntries
    {f : KeyedMap → KeyedMap} (hc : Knows S c) (hf : ∀ m, ∀ e ∈ (f m).entries, e ∈ m.entries) :
    Keeps S (Builtin.changeEntries c f) := by
  refine modify fun k w h hS _ => ⟨w, .one (.elements ?_ fun d hd htaken => ?_)⟩
  · exact knows_collectionFact.mp (hc.mono hS)
  · cases d with
    | items xs =>
        exact ⟨hd, htaken⟩
    | entries m =>
        refine ⟨KeyedMap.knows_iff.mpr fun e he => ?_, htaken.1, fun e he => ?_⟩
        · exact KeyedMap.knows_iff.mp hd e (hf m e he)
        · exact htaken.2 e (hf m e he)

/-! ### Making collections -/

theorem newCollection
    (kind : CollectionKind) (typeArgs : List TypeExpr) :
    Keeps S (Eval.change fun h => h.newCollection kind typeArgs) fun c => c.kind = kind := by
  refine change fun k w h _ _ => ⟨_, .one (.openCollection (c := ⟨h.collections.size, kind, typeArgs⟩) rfl), ?_, rfl⟩
  exact Set.subset_union_right

@[grind ←]
theorem pushItem
    (hc : Knows S c) (hv : Knows S v) :
    Keeps S (Builtin.pushItem c v) := by
  refine (checkElement c none v).bind fun _ htakes => more ?_ _
  refine look.skip fun h => ite (fun _ => pure (knows_bool _) trivial) fun _ => ?_
  refine (storeItem hc hv htakes.1 fun xs u hu => ?_).skip fun _ => pure (knows_bool _) trivial
  exact Array.mem_push.mp hu

@[grind ←]
theorem insertEntry
    {key : Value} (hc : Knows S c) (hkey : Knows S key) (hv : Knows S v) :
    Keeps S (Builtin.insertEntry c key v) := by
  refine (checkElement c (some key) v).bind fun _ htakes => more ?_ _
  exact look.skip fun h => storeEntry _ hc hkey hv fun hkind => htakes.2 hkind key rfl

theorem pushItems
    {vs : List Value} (hc : Knows S c) (hvs : Knows S vs) :
    Keeps S (vs.forM fun v => do let _ ← Builtin.pushItem c v) := by
  refine forM fun v hv => (pushItem hc (hvs.of_mem hv)).skip fun _ => pure (knows_unit _) trivial

theorem fillSequence
    (hc : Knows S c) (hargs : Knows S args) :
    Keeps S (Builtin.fillSequence c args) := by
  unfold Builtin.fillSequence
  dsimp only
  split
  · refine look.andThen fun h => (pure (a := (h.array _).toList) ?_ trivial).andThen fun items => ?_
    · exact (Knows.self S h).array _
    · exact pushItems (by simp [hc]) (Knows.self _ _)
  · exact (pure hargs trivial).andThen fun items => pushItems (hc.more _) (Knows.self _ _)

theorem fillMap
    (hc : Knows S c) :
    Keeps S (Builtin.fillMap c args) := by
  refine look.andThen fun h => ?_
  split
  · exact pure (knows_unit _) trivial
  · refine forM fun e he => ?_
    have hmap := (Knows.self S h).map
    have hknown := KeyedMap.knows_iff.mp (hmap _) e (Array.mem_toList_iff.mp he)
    exact insertEntry (hc.more _) hknown.1 hknown.2
  · exact fault _
  · exact fault _

@[grind ←]
theorem makeCollection
    (kind : CollectionKind) (typeArgs : List TypeExpr) (hargs : Knows S args) :
    Keeps S (Builtin.makeCollection kind typeArgs args) := by
  unfold Builtin.makeCollection
  dsimp only
  refine guarded _ ?_
  refine (newCollection kind typeArgs).bind fun c _ => ?_
  have hc := Knows.self S c
  have hdone : Keeps (S ∪ carried c) (Pure.pure (Value.collection c)) := pure hc trivial
  split
  · exact (fillMap hc).skip fun _ => hdone
  · exact (fillSequence hc (hargs.more _)).skip fun _ => hdone

/-! ### Methods of sequences -/

@[grind ←]
theorem itemPlace
    (c : Collection) (key : Value) :
    Keeps S (Builtin.itemPlace c key) := by
  exact look.skip fun h => answer (Plain.knows _ _)

@[grind ←]
theorem itemAt
    (c : Collection) (i : Nat) :
    Keeps S (Builtin.itemAt c i) := by
  refine look.andThen fun h => pure ?_ trivial
  exact (Builtin.knows_sequenceItems (Knows.self S h) c).array_getD knows_vnil i

@[grind ←]
theorem insertItem
    (hc : Knows S c) (hargs : Knows S args) :
    Keeps S (Builtin.insertItem c args) := by
  refine (answer (Plain.knows _ _)).skip fun _ => ?_
  refine (checkElement c none _).bind fun _ htakes => more ?_ _
  refine look.skip fun h => ?_
  split
  · refine ite (fun _ => ?_) fun _ => fault _
    refine storeItem hc (Builtin.knows_argument hargs 1) htakes.1 fun xs u hu => ?_
    exact mem_or_eq_of_mem_insert hu
  · exact fault _

@[grind ←]
theorem removeItem
    (args : List Value) (hc : Knows S c) :
    Keeps S (Builtin.removeItem c args) := by
  unfold Builtin.removeItem
  refine (answer (Plain.knows _ _)).skip fun _ => look.skip fun h => ?_
  refine (pure (Plain.knows _ _) trivial).skip fun found => ?_
  split
  · refine (dropItems hc fun xs u hu => ?_).skip fun _ => pure (knows_bool _) trivial
    exact mem_of_mem_erase hu
  · exact pure (knows_bool _) trivial

@[grind ←]
theorem takeItem
    (i : Nat) (hc : Knows S c) :
    Keeps S (Builtin.takeItem c i) := by
  refine (itemAt c i).andThen fun v => ?_
  refine (dropItems (hc.more _) fun xs u hu => ?_).skip fun _ => pure (Knows.self _ _) trivial
  exact mem_of_mem_erase hu

section Callbacks

variable [Careful E] {callee : Value} {items : List Value}

@[grind ←]
theorem mapCollection
    (c : Collection) (hcallee : Knows S callee) (hitems : Knows S items) :
    Keeps S (Builtin.mapCollection E c callee items) := by
  refine (newCollection c.kind []).bind fun target _ => ?_
  have htarget := Knows.self S target
  refine (forM fun p hp => ?_).skip fun _ => pure htarget trivial
  refine (callFor p.2 (hcallee.more _) ((knows_item hitems hp).more _)).andThen fun v => ?_
  exact (pushItem (htarget.more _) (Knows.self _ _)).skip fun _ => pure (knows_unit _) trivial

@[grind ←]
theorem filterCollection
    (c : Collection) (hcallee : Knows S callee) (hitems : Knows S items) :
    Keeps S (Builtin.filterCollection E c callee items) := by
  refine (newCollection c.kind c.typeArgs).bind fun target _ => ?_
  have htarget := Knows.self S target
  refine (forM fun p hp => ?_).skip fun _ => pure htarget trivial
  have hitem := (knows_item hitems hp).more (carried target)
  refine (callFor p.2 (hcallee.more _) hitem).skip fun v => ite (fun _ => ?_) fun _ => ?_
  · exact (pushItem htarget hitem).skip fun _ => pure (knows_unit _) trivial
  · exact pure (knows_unit _) trivial

@[grind ←]
theorem traverseSequence
    (name : String) (hc : Knows S c) (hargs : Knows S args) :
    Keeps S (Builtin.traverseSequence E c name args) := by
  refine heap.bind fun h hseen => ?_
  have hitems : Knows (S ∪ carried h) (Builtin.sequenceItems h c).toList :=
    Builtin.knows_sequenceItems (Knows.self S h) c
  have hargs' := hargs.more (carried h)
  have hcallee (name : String) := Keeps.answer (Builtin.knows_firstCallback (h := h) hargs' name)
  dsimp only
  split
  · refine (hcallee _).andThen fun f => ?_
    exact (visitItems (Knows.self _ _) (hitems.more _)).skip fun _ => pure knows_vnil trivial
  · exact (hcallee _).andThen fun f => mapCollection c (Knows.self _ _) (hitems.more _)
  · exact (hcallee _).andThen fun f => filterCollection c (Knows.self _ _) (hitems.more _)
  · refine (answer (Plain.knows _ _)).skip fun _ => ?_
    refine (sortItems (fun a ha b hb => ?_) hitems).bind fun sorted hsorted => ?_
    · exact compareItems (knows_head? hargs') (hitems.of_mem ha) (hitems.of_mem hb)
    · refine (storeItems sorted ((hc.more _).more _) (Knows.self _ _) (fun _ v hv => ?_)
        fun xs v hv => ?_).skip fun _ => pure knows_vnil trivial
      · exact hseen.takesItem hc (Array.mem_toList_iff.mp (hsorted v hv))
      · exact .inr (List.mem_toArray.mp hv)
  · exact (text (hc.more _)).skip fun s => pure knows_vstr trivial
  · exact fault _

@[grind ←]
theorem callSequence
    (name : String) (hc : Knows S c) (hargs : Knows S args) :
    Keeps S (Builtin.callSequence E c name args) := by
  have hfirst := Builtin.knows_argument hargs 0
  have hsecond := Builtin.knows_argument hargs 1
  have hpush : Keeps S (if c.kind == .set then do
        Eval.ofExcept (Builtin.takesExactly args 1)
        Pure.pure (Value.bool (← Builtin.pushItem c (Builtin.argument args 0)))
      else do
        args.forM fun v => do let _ ← Builtin.pushItem c v
        Pure.pure Value.nil) := by
    refine ite (fun _ => ?_) fun _ => ?_
    · refine (answer (Plain.knows _ _)).skip fun _ => ?_
      exact (pushItem hc hfirst).skip fun _ => pure knows_vbool trivial
    · exact (pushItems hc hargs).skip fun _ => pure knows_vnil trivial
  unfold Builtin.callSequence
  split
  case h_1 | h_2 | h_3 =>
    exact hpush
  case h_4 =>
    refine (answer (Plain.knows _ _)).skip fun _ => ?_
    refine (checkElement c none _).bind fun _ htakes => more ?_ _
    refine (storeItem hc hfirst htakes.1 fun xs v hv => ?_).skip fun _ => pure knows_vnil trivial
    rcases Array.mem_append.mp hv with hnew | hold
    · exact .inr (by simpa using hnew)
    · exact .inl hold
  case h_6 =>
    refine (answer (Plain.knows _ _)).skip fun _ => ?_
    refine (checkElement c (some _) _).bind fun _ htakes => more ?_ _
    refine (itemPlace c _).skip fun i => (itemAt c i).andThen fun old => ?_
    refine (storeItem (hc.more _) (hsecond.more _) htakes.1 fun xs v hv => ?_).skip fun _ => ?_
    · exact Array.mem_or_eq_of_mem_setIfInBounds hv
    · exact pure (Knows.self _ _) trivial
  case h_19 =>
    exact (dropItems hc fun xs v hv => by simp at hv).skip fun _ => pure knows_vnil trivial
  case h_20 | h_21 =>
    refine look.andThen fun h => makeArray ?_
    exact Builtin.knows_sequenceItems (Knows.self S h) c
  all_goals grind

/-! ### Methods of maps -/

@[grind ←]
theorem callMapCollection
    (name : String) (hc : Knows S c) (hargs : Knows S args) :
    Keeps S (Builtin.callMapCollection E c name args) := by
  have hentries (h : Heap) := Builtin.knows_mapEntries (Knows.self S h) c
  have hinsert := insertEntry hc (Builtin.knows_argument hargs 0) (Builtin.knows_argument hargs 1)
  have herase : Keeps S (do
      let h ← Eval.heap
      let k := h.key (Builtin.argument args 0)
      let found := (Builtin.mapEntries h c).get? k
      Builtin.changeEntries c fun m => (m.erase k).2
      Pure.pure (found.getD .nil)) := by
    refine look.andThen fun h => ?_
    refine (dropEntries (hc.more _) fun m e he => KeyedMap.mem_entries_erase he).skip fun _ => ?_
    exact pure ((KeyedMap.knows_get? (hentries h) _).getD knows_vnil) trivial
  unfold Builtin.callMapCollection
  split
  · exact (answer (Plain.knows _ _)).skip fun _ => hinsert.skip fun _ => pure knows_vnil trivial
  · exact (answer (Plain.knows _ _)).skip fun _ => hinsert.skip fun _ => pure knows_vnil trivial
  · exact (answer (Plain.knows _ _)).skip fun _ => herase
  · exact (answer (Plain.knows _ _)).skip fun _ => herase
  · refine (dropEntries hc fun m e he => ?_).skip fun _ => pure knows_vnil trivial
    simp [KeyedMap.empty] at he
  · refine look.andThen fun h => ?_
    exact (visitEntries (hargs.more _) (hentries h)).skip fun _ => pure knows_vnil trivial
  · exact (text hc).skip fun s => pure knows_vstr trivial
  · refine query (fun w h hS hh => ?_) fun a => ?_
    · exact Builtin.knows_queryMap (Builtin.knows_mapEntries hh c) (hargs.mono hS) _
    · split
      · next a => exact toValue (Knows.self S (some a))
      · exact fault _

@[grind ←]
theorem callCollection
    (name : String) (hc : Knows S c) (hargs : Knows S args) :
    Keeps S (Builtin.callCollection E c name args) := by
  unfold Builtin.callCollection
  grind

end Callbacks

end Keeps
end ScriptEngine
