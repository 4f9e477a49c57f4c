import ScriptEngine.Proofs.Resets.Sequences

/-!
# Collections that overlook what is old

A collection keeps its contents in the heap.  Its methods overlook what is old if the collection and
their arguments are recent.
-/

namespace ScriptEngine
namespace Oblivious

variable {t : Epoch} {E : Engine} {args : List Value} {v : Value} {c : Collection} {α : Type}
variable {P : α → Prop}

/-! ### Elements -/

theorem checkElement
    {key : Option Value} (c : Collection) (hkey : Recent t key) (hv : Recent t v) :
    Oblivious t (Builtin.checkElement c key v) fun _ => True := by
  refine look (fun h hh => ?_) fun h _ => unlessFault _
  rw [Builtin.elementFault?_forget c hh hkey hv]

theorem changeItems
    {f : Array Value → Array Value} (hc : Recent t c) (hf : Recent t f) :
    Oblivious t (Builtin.changeItems c f) fun _ => True := by
  refine modify (.modifyCollection hc fun contents hcontents => ?_)
  cases contents with
  | items xs =>
      exact hf xs hcontents
  | entries m =>
      exact hcontents

theorem changeEntries
    {f : KeyedMap → KeyedMap} (hc : Recent t c) (hf : ∀ m, Recent t m → Recent t (f m)) :
    Oblivious t (Builtin.changeEntries c f) fun _ => True := by
  refine modify (.modifyCollection hc fun contents hcontents => ?_)
  cases contents with
  | items xs =>
      exact hcontents
  | entries m =>
      exact hf m hcontents

/-- The place of an element among those of a collection. -/
theorem position?_forget
    {h : Heap} (hh : h.Renewed t) (hc : Recent t c) (hv : Recent t v) :
    Builtin.position? (h.forget t) (Builtin.sequenceItems (h.forget t) c).toList v =
      Builtin.position? h (Builtin.sequenceItems h c).toList v := by
  have hitems := recent_toList.mpr (Builtin.recent_sequenceItems hc hh)
  rw [Builtin.sequenceItems_forget hc, Builtin.position?_forget hh hitems hv]

theorem pushItem
    (hc : Recent t c) (hv : Recent t v) :
    Oblivious t (Builtin.pushItem c v) fun _ => True := by
  refine (checkElement c recent_none hv).bind fun _ _ => look (fun h hh => ?_) fun h hh => ?_
  · rw [position?_forget hh hc hv]
  · refine ite (fun _ => pure trivial) fun _ => ?_
    exact (changeItems hc fun xs hxs => recent_array_push.mpr ⟨hxs, hv⟩).bind fun _ _ =>
      pure trivial

theorem insertEntry
    {key : Value} (hc : Recent t c) (hkey : Recent t key) (hv : Recent t v) :
    Oblivious t (Builtin.insertEntry c key v) fun _ => True := by
  refine (checkElement c (recent_some.mpr hkey) hv).bind fun _ _ =>
    look (fun h hh => ?_) fun h _ => ?_
  · rw [Heap.key_forget hh hkey]
  · exact changeEntries hc fun m hm => KeyedMap.recent_insert hm hkey hv

/-- Elements are put in one after another. -/
theorem pushAll
    {vs : List Value} (hc : Recent t c) (hvs : Recent t vs) :
    Oblivious t (vs.forM fun v => do let _ ← Builtin.pushItem c v) fun _ => True := by
  exact forM fun v hv => (pushItem hc (hvs v hv)).bind fun _ _ => pure trivial

theorem fillSequence
    (hc : Recent t c) (hargs : Recent t args) :
    Oblivious t (Builtin.fillSequence c args) fun _ => True := by
  unfold Builtin.fillSequence
  split
  · next id =>
      have hid : t.arrays ≤ id := recent_varray.mp (recent_cons.mp hargs).1
      refine look (fun h _ => ?_) fun h hh => pushAll hc (recent_toList.mpr (hh.array hid))
      rw [Heap.array_forget hid]
  · exact pushAll hc hargs

theorem fillMap
    (hc : Recent t c) (hargs : Recent t args) :
    Oblivious t (Builtin.fillMap c args) fun _ => True := by
  unfold Builtin.fillMap
  refine look (fun h hh => ?_) fun h hh => ?_
  · split
    · rfl
    · next id =>
        rw [Heap.map_forget (recent_vmap.mp (recent_cons.mp hargs).1)]
    · rw [Heap.typeName_forget hh (recent_cons.mp hargs).1]
    · rfl
  · split
    · exact pure trivial
    · next id =>
        have hmap := hh.map (recent_vmap.mp (recent_cons.mp hargs).1)
        refine forM fun e he => ?_
        obtain ⟨hkey, hv⟩ := hmap e (Array.mem_toList_iff.mp he)
        exact insertEntry hc hkey hv
    · exact fault _
    · exact fault _

theorem makeCollection
    (kind : CollectionKind) (typeArgs : List TypeExpr) (hargs : Recent t args) :
    Oblivious t (Builtin.makeCollection kind typeArgs args) (Recent t) := by
  unfold Builtin.makeCollection
  refine guarded _ ((change (.newCollection kind typeArgs)).bind fun c hc => ?_)
  dsimp only
  split
  · exact (fillMap hc hargs).bind fun _ _ => pure hc
  · exact (fillSequence hc hargs).bind fun _ _ => pure hc

theorem insertItem
    (hc : Recent t c) (hargs : Recent t args) :
    Oblivious t (Builtin.insertItem c args) fun _ => True := by
  have hplace := recent_argument hargs 0
  have hv := recent_argument hargs 1
  unfold Builtin.insertItem
  generalize Builtin.argument args 0 = place at hplace ⊢
  refine counted ((checkElement c recent_none hv).bind fun _ _ =>
    look (fun h hh => ?_) fun h _ => ?_)
  · rw [Builtin.sequenceItems_forget hc]
    dsimp only
    split
    · rfl
    · rw [Heap.typeName_forget hh hplace]
  · dsimp only
    split
    · refine ite (fun _ => changeItems hc fun xs hxs => ?_) fun _ => fault _
      exact Recent.insertIdxIfInBounds hxs hv _
    · exact fault _

theorem itemPlace
    {key : Value} (hc : Recent t c) (hkey : Recent t key) :
    Oblivious t (Builtin.itemPlace c key) fun _ => True := by
  refine look (fun h hh => ?_) fun h _ => ofExcept fun _ _ => trivial
  rw [Builtin.sequenceItems_forget hc, Eval.indexOf_forget hh hkey]

theorem itemAt
    (hc : Recent t c) (i : Nat) :
    Oblivious t (Builtin.itemAt c i) (Recent t) := by
  refine tell (fun h _ => ?_) fun h hh => ?_
  · rw [Builtin.sequenceItems_forget hc]
  · exact (Builtin.recent_sequenceItems hc hh).array_getD recent_vnil i

theorem removeItem
    (hc : Recent t c) (hargs : Recent t args) :
    Oblivious t (Builtin.removeItem c args) fun _ => True := by
  have hv := recent_argument hargs 0
  refine counted (look (fun h hh => ?_) fun h _ => ?_)
  · rw [position?_forget hh hc hv]
  · rw [pure_bind]
    split
    · exact (changeItems hc fun xs hxs => hxs.eraseIdxIfInBounds _).bind fun _ _ => pure trivial
    · exact pure trivial

theorem takeItem
    (hc : Recent t c) (i : Nat) :
    Oblivious t (Builtin.takeItem c i) (Recent t) := by
  refine (itemAt hc i).bind fun v hv => ?_
  exact (changeItems hc fun xs hxs => hxs.eraseIdxIfInBounds i).bind fun _ _ => pure hv

/-! ### Methods -/

section Methods

variable [Unmindful t E]

theorem mapCollection
    {callee : Value} {items : List Value} (c : Collection) (hcallee : Recent t callee)
    (hitems : Recent t items) :
    Oblivious t (Builtin.mapCollection E c callee items) (Recent t) := by
  refine (change (.newCollection c.kind [])).bind fun target htarget => ?_
  refine (forM fun p hp => ?_).bind fun _ _ => pure htarget
  have hitem := hitems p.1 (List.fst_mem_of_mem_zipIdx hp)
  refine (callFor p.2 hcallee hitem).bind fun v hv => ?_
  exact (pushItem htarget hv).bind fun _ _ => pure trivial

theorem filterCollection
    {callee : Value} {items : List Value} (c : Collection) (hcallee : Recent t callee)
    (hitems : Recent t items) :
    Oblivious t (Builtin.filterCollection E c callee items) (Recent t) := by
  refine (change (.newCollection c.kind c.typeArgs)).bind fun target htarget => ?_
  refine (forM fun p hp => ?_).bind fun _ _ => pure htarget
  have hitem := hitems p.1 (List.fst_mem_of_mem_zipIdx hp)
  refine (callFor p.2 hcallee hitem).bind fun v _ => ite (fun _ => ?_) fun _ => pure trivial
  exact (pushItem htarget hitem).bind fun _ _ => pure trivial

theorem traverseSequence
    (hc : Recent t c) (name : String) (hargs : Recent t args) :
    Oblivious t (Builtin.traverseSequence E c name args) (Recent t) := by
  refine look (fun h hh => ?_) fun h hh => ?_
  · simp only [Builtin.sequenceItems_forget hc, Builtin.firstCallback_forget hh hargs]
  have hitems : Recent t (Builtin.sequenceItems h c).toList :=
    recent_toList.mpr (Builtin.recent_sequenceItems hc hh)
  dsimp only
  split
  · exact withCallback hargs _ fun f hf => (visitItems hf hitems).bind fun _ _ => pure recent_vnil
  · exact withCallback hargs _ fun f hf => mapCollection c hf hitems
  · exact withCallback hargs _ fun f hf => filterCollection c hf hitems
  · have horder (a b : Value) (ha : Recent t a) (hb : Recent t b) :=
      compareItems (E := E) (recent_head? hargs) ha hb
    refine counted ((sortItems horder hitems).bind fun sorted hsorted => ?_)
    refine (changeItems hc fun _ _ => ?_).bind fun _ _ => pure recent_vnil
    exact recent_toArray.mpr hsorted
  · exact (Unmindful.text (v := .collection c) hc).bind fun _ _ => pure recent_vstr
  · exact fault _

theorem callSequence
    (hc : Recent t c) (name : String) (hargs : Recent t args) :
    Oblivious t (Builtin.callSequence E c name args) (Recent t) := by
  have hfirst := recent_argument hargs 0
  have hsecond := recent_argument hargs 1
  have hadd : Oblivious t (if c.kind == .set then do
        Eval.ofExcept (Builtin.takesExactly args 1)
        Pure.pure (Value.bool (← Builtin.pushItem c (Builtin.argument args 0)))
      else do
        args.forM fun v => do let _ ← Builtin.pushItem c v
        Pure.pure Value.nil) (Recent t) := by
    refine ite (fun _ => counted ?_) fun _ => (pushAll hc hargs).bind fun _ _ => pure recent_vnil
    exact (pushItem hc hfirst).bind fun _ _ => pure recent_vbool
  have hcount (f : Array Value → Value) (hf : ∀ xs, Recent t xs → Recent t (f xs)) :
      Oblivious t (do
        let h ← Eval.heap
        Pure.pure (f (Builtin.sequenceItems h c))) (Recent t) := by
    refine tell (fun h _ => ?_) fun h hh => hf _ (Builtin.recent_sequenceItems hc hh)
    rw [Builtin.sequenceItems_forget hc]
  have hposition (f : Option Nat → Value) (hf : ∀ i, Recent t (f i)) : Oblivious t (do
      let h ← Eval.heap
      Pure.pure (f (Builtin.position? h (Builtin.sequenceItems h c).toList
        (Builtin.argument args 0)))) (Recent t) := by
    refine tell (fun h hh => ?_) fun h _ => hf _
    rw [position?_forget hh hc hfirst]
  have hlast (x : Nat → Eval Value) (hx : ∀ i, Oblivious t (x i) (Recent t)) : Oblivious t (do
      let h ← Eval.heap
      x ((Builtin.sequenceItems h c).size - 1)) (Recent t) := by
    refine look (fun h _ => ?_) fun h _ => hx _
    rw [Builtin.sequenceItems_forget hc]
  have harray : Oblivious t (do
      let h ← Eval.heap
      Eval.makeArray (Builtin.sequenceItems h c).toList) (Recent t) := by
    refine look (fun h _ => ?_) fun h hh => makeArray ?_
    · rw [Builtin.sequenceItems_forget hc]
    · exact recent_toList.mpr (Builtin.recent_sequenceItems hc hh)
  unfold Builtin.callSequence
  split
  · exact hadd
  · exact hadd
  · exact hadd
  · refine counted ((checkElement c recent_none hfirst).bind fun _ _ => ?_)
    refine (changeItems hc fun xs hxs => ?_).bind fun _ _ => pure recent_vnil
    exact recent_array_append.mpr ⟨recent_toArray.mpr (by simp [hfirst]), hxs⟩
  · exact counted ((itemPlace hc hfirst).bind fun i _ => itemAt hc i)
  · refine counted ((checkElement c (recent_some.mpr hfirst) hsecond).bind fun _ _ => ?_)
    refine (itemPlace hc hfirst).bind fun i _ => (itemAt hc i).bind fun old hold => ?_
    refine (changeItems hc fun xs hxs => ?_).bind fun _ _ => pure hold
    exact hxs.setIfInBounds hsecond i
  · exact (insertItem hc hargs).bind fun _ _ => pure recent_vnil
  · exact (removeItem hc hargs).bind fun _ _ => pure recent_vbool
  · exact counted ((itemPlace hc hfirst).bind fun i _ => takeItem hc i)
  · exact takeItem hc 0
  · exact hlast _ fun i => takeItem hc i
  · exact itemAt hc 0
  · exact hlast _ fun i => itemAt hc i
  · exact hposition (fun i => .bool i.isSome) fun _ => recent_vbool
  · exact hposition Builtin.place Builtin.recent_place
  · exact hcount (fun xs => Builtin.count xs.size) fun _ _ => recent_count _
  · exact hcount (fun xs => Builtin.count xs.size) fun _ _ => recent_count _
  · exact hcount (fun xs => .bool xs.isEmpty) fun _ _ => recent_vbool
  · exact (changeItems hc fun _ _ => recent_array_empty).bind fun _ _ => pure recent_vnil
  · exact harray
  · exact harray
  · exact traverseSequence hc name hargs

theorem callMapCollection
    (hc : Recent t c) (name : String) (hargs : Recent t args) :
    Oblivious t (Builtin.callMapCollection E c name args) (Recent t) := by
  have hfirst := recent_argument hargs 0
  have hset : Oblivious t (do
      Eval.ofExcept (Builtin.takesExactly args 2)
      Builtin.insertEntry c (Builtin.argument args 0) (Builtin.argument args 1)
      Pure.pure Value.nil) (Recent t) :=
    counted ((insertEntry hc hfirst (recent_argument hargs 1)).bind fun _ _ => pure recent_vnil)
  have hremove : Oblivious t (do
      Eval.ofExcept (Builtin.takesExactly args 1)
      let h ← Eval.heap
      let k := h.key (Builtin.argument args 0)
      let found := (Builtin.mapEntries h c).get? k
      Builtin.changeEntries c fun m => (m.erase k).2
      Pure.pure (found.getD .nil)) (Recent t) := by
    refine counted (look (fun h hh => ?_) fun h hh => ?_)
    · rw [Heap.key_forget hh hfirst, Builtin.mapEntries_forget hc]
    · refine (changeEntries hc fun m hm => KeyedMap.recent_erase hm _).bind fun _ _ => pure ?_
      exact (KeyedMap.recent_get? (Builtin.recent_mapEntries hc hh) _).getD recent_vnil
  unfold Builtin.callMapCollection
  split
  · exact hset
  · exact hset
  · exact hremove
  · exact hremove
  · exact (changeEntries hc fun _ _ => KeyedMap.recent_empty).bind fun _ _ => pure recent_vnil
  · refine look (fun h _ => ?_) fun h hh => ?_
    · rw [Builtin.mapEntries_forget hc]
    · refine (visitEntries hargs ?_).bind fun _ _ => pure recent_vnil
      exact recent_toList.mpr (Builtin.recent_mapEntries hc hh)
  · exact (Unmindful.text (v := .collection c) hc).bind fun _ _ => pure recent_vstr
  · refine ask (fun h hh => ?_)
      (fun h hh => Builtin.recent_queryMap (Builtin.recent_mapEntries hc hh) hargs name) fun a ha => ?_
    · rw [Builtin.mapEntries_forget hc, Builtin.queryMap_forget hh hargs]
    · cases a with
      | some a =>
          exact toValue (recent_some.mp ha)
      | none =>
          exact fault _

theorem callCollection
    (hc : Recent t c) (name : String) (hargs : Recent t args) :
    Oblivious t (Builtin.callCollection E c name args) (Recent t) := by
  unfold Builtin.callCollection
  refine ite (fun _ => fault _) fun _ => ?_
  split
  · exact callMapCollection hc name hargs
  · exact callSequence hc name hargs

end Methods

end Oblivious
end ScriptEngine
