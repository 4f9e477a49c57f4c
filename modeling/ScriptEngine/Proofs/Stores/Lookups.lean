import ScriptEngine.Proofs.Stores.Scoping

/-!
# What the heap tells

What is found in a known heap is known, and so are the parts of known maps and lists.  The second half
lists the changes of arrays, maps, futures, threads and jobs: as long as what is stored is known, they
are `Quiet`.
-/

namespace ScriptEngine

variable {w : World}

/-! ### Arrays -/

section Arrays

variable {α : Type} {xs : Array α} {a b : α} {i : Nat}

theorem mem_of_mem_erase
    (ha : a ∈ xs.eraseIdxIfInBounds i) :
    a ∈ xs := by
  rw [← Array.mem_toList_iff, Array.toList_eraseIdxIfInBounds] at ha
  exact Array.mem_toList_iff.mp (List.mem_of_mem_eraseIdx ha)

theorem mem_or_eq_of_mem_insert
    (ha : a ∈ xs.insertIdxIfInBounds i b) :
    a ∈ xs ∨ a = b := by
  obtain ⟨l⟩ := xs
  rw [List.insertIdxIfInBounds_toArray, List.mem_toArray] at ha
  rw [List.mem_toArray]
  by_cases hi : i ≤ l.length
  · exact ((List.mem_insertIdx hi).mp ha).symm
  · rw [List.insertIdx_of_length_lt (Nat.lt_of_not_le hi)] at ha
    exact .inl ha

variable [Carrier α]

theorem Knows.of_array_subset
    {ys : Array α} (hxs : Knows w xs) (h : ∀ a ∈ ys, a ∈ xs) :
    Knows w ys := by
  exact knows_array.mpr fun a ha => hxs.of_mem_array (h a ha)

theorem Knows.setIfInBounds
    (hxs : Knows w xs) (ha : Knows w a) :
    Knows w (xs.setIfInBounds i a) := by
  refine knows_array.mpr fun b hb => ?_
  rcases Array.mem_or_eq_of_mem_setIfInBounds hb with hold | rfl
  · exact hxs.of_mem_array hold
  · exact ha

theorem Knows.insertIdxIfInBounds
    (hxs : Knows w xs) (ha : Knows w a) :
    Knows w (xs.insertIdxIfInBounds i a) := by
  refine knows_array.mpr fun b hb => ?_
  rcases mem_or_eq_of_mem_insert hb with hold | rfl
  · exact hxs.of_mem_array hold
  · exact ha

theorem Knows.append
    {ys : Array α} (hxs : Knows w xs) (hys : Knows w ys) :
    Knows w (xs ++ ys) := by
  refine knows_array.mpr fun b hb => ?_
  rcases Array.mem_append.mp hb with hb | hb
  · exact hxs.of_mem_array hb
  · exact hys.of_mem_array hb

end Arrays

/-! ### Maps -/

namespace KeyedMap

variable {m : KeyedMap}

theorem knows_iff : Knows w m ↔ ∀ e ∈ m.entries, Knows w e.1 ∧ Knows w e.2 := by
  rw [show Knows w m ↔ Knows w m.entries from Iff.rfl, knows_array]
  simp only [knows_pair]

@[simp] theorem knows_empty : Knows w KeyedMap.empty := by
  simp [knows_iff, empty]

theorem knows_get?
    (hm : Knows w m) (k : KeyImage) :
    Knows w (m.get? k) := by
  rw [get?]
  cases m.index[k]? with
  | none =>
      exact knows_none
  | some slot =>
      rw [Option.bind_some]
      cases hget : m.entries[slot]? with
      | none =>
          exact knows_none
      | some e =>
          exact (knows_iff.mp hm e (Array.mem_of_getElem? hget)).2

theorem knows_insert
    {k : KeyImage} {key v : Value} (hm : Knows w m) (hkey : Knows w key) (hv : Knows w v) :
    Knows w (m.insert k key v).2 := by
  rw [insert]
  split
  · refine Knows.modify (l := m.entries) hm fun e _ he => ?_
    rw [knows_pair] at he ⊢
    exact ⟨he.1, hv⟩
  · exact Knows.push (l := m.entries) hm (knows_pair.mpr ⟨hkey, hv⟩)

theorem mem_entries_erase
    {k : KeyImage} {e : Value × Value} (he : e ∈ (m.erase k).2.entries) :
    e ∈ m.entries := by
  rw [erase] at he
  split at he
  · exact mem_of_mem_erase he
  · exact he

theorem knows_erase
    (hm : Knows w m) (k : KeyImage) :
    Knows w (m.erase k).2 := by
  exact knows_iff.mpr fun e he => knows_iff.mp hm e (mem_entries_erase he)

theorem knows_keys
    (hm : Knows w m) :
    Knows w m.keys := by
  refine knows_list.mpr fun v hv => ?_
  obtain ⟨e, he, rfl⟩ := List.mem_map.mp hv
  exact (knows_iff.mp hm e (Array.mem_toList_iff.mp he)).1

theorem knows_values
    (hm : Knows w m) :
    Knows w m.values := by
  refine knows_list.mpr fun v hv => ?_
  obtain ⟨e, he, rfl⟩ := List.mem_map.mp hv
  exact (knows_iff.mp hm e (Array.mem_toList_iff.mp he)).2

end KeyedMap

/-! ### What is found in a heap -/

namespace Knows

variable {h : Heap}

theorem scopes (hh : Knows w h) : Knows w h.scopes := (knows_heap.mp hh).1

theorem array
    (hh : Knows w h) (id : Nat) :
    Knows w (h.array id) := by
  refine Knows.array_getD (l := h.arrays) (knows_heap.mp hh).2.1 ?_ id
  simp [knows_array]

theorem map
    (hh : Knows w h) (id : Nat) :
    Knows w (h.map id) := by
  exact Knows.array_getD (l := h.maps) (knows_heap.mp hh).2.2.1 KeyedMap.knows_empty id

theorem field?
    (hh : Knows w h) (o : Instance) (name : String) :
    Knows w (h.field? o name) := by
  have hobject : Knows w (h.object o.id) :=
    Knows.array_getD (l := h.objects) (knows_heap.mp hh).2.2.2.1 knows_assoc_empty o.id
  exact Knows.find? (m := (h.object o.id).fields) hobject name

theorem collection
    (hh : Knows w h) (id : Nat) :
    Knows w (h.collection id) := by
  refine Knows.array_getD (l := h.collections) (knows_heap.mp hh).2.2.2.2.1 ?_ id
  exact knows_emptyData w .list

theorem collectionItems
    (hh : Knows w h) (c : Collection) :
    Knows w (h.collectionItems c) := by
  have hcontents := hh.collection c.id
  rw [Heap.collectionItems]
  split
  · next xs heq =>
      rw [heq] at hcontents
      exact hcontents
  · next m heq =>
      rw [heq] at hcontents
      exact KeyedMap.knows_values hcontents

theorem queue
    (hh : Knows w h) (id : Nat) :
    Knows w (h.hub.channel id).queue := by
  exact Knows.array_getD (l := h.hub.channels) (knows_heap.mp hh).2.2.2.2.2.1
    (d := ⟨none, [], false, []⟩) knows_nil id

theorem future
    (hh : Knows w h) (id : Nat) :
    Knows w (h.future id) := by
  refine Knows.array_getD (l := h.futures) (knows_heap.mp hh).2.2.2.2.2.2.1 ?_ id
  simp [default]

theorem outcome
    (hh : Knows w h) (id : Nat) :
    Knows w ((h.threads[id]?).getD none) := by
  have hthreads := (knows_heap.mp hh).2.2.2.2.2.2.2.1
  cases hget : h.threads[id]? with
  | none =>
      exact knows_none
  | some o =>
      exact hthreads.of_mem_array (Array.mem_of_getElem? hget)

theorem staticsOf
    (hh : Knows w h) (id : Nat) :
    Knows w (h.staticsOf id) := by
  refine Knows.array_getD (l := h.statics) (knows_heap.mp hh).2.2.2.2.2.2.2.2.1 ?_ id
  simp [default]

theorem static?
    (hh : Knows w h) (id : Nat) (name : String) :
    Knows w (h.static? id name) := by
  exact (knows_statics.mp (hh.staticsOf id)).1.find? name

theorem classStatic?
    (hh : Knows w h) (c : ClassDef) (name : String) :
    Knows w (h.classStatic? c name) := by
  rw [Heap.classStatic?, Heap.staticHome?]
  cases hfind : c.lineage.findSome? fun d => (h.static? d.id name).map (d, ·) with
  | none =>
      exact knows_none
  | some r =>
      obtain ⟨d, -, hd⟩ := List.exists_of_findSome?_eq_some hfind
      obtain ⟨slot, hslot, rfl⟩ := Option.map_eq_some_iff.mp hd
      have hknown := hh.static? d.id name
      rw [hslot] at hknown
      exact hknown

theorem cls?
    {name : String} {c : ClassDef} (hh : Knows w h)
    (hfind : Registry.cls? h.registry name = some c) :
    Knows w c := by
  have hregistry : Knows w h.registry := (knows_heap.mp hh).2.2.2.2.2.2.2.2.2.1
  exact knows_assoc.mp (knows_registry.mp hregistry).1 name c hfind

theorem interface?
    {name : String} {i : Interface} (hh : Knows w h)
    (hfind : Registry.interface? h.registry name = some i) :
    Knows w i := by
  have hregistry : Knows w h.registry := (knows_heap.mp hh).2.2.2.2.2.2.2.2.2.1
  exact knows_assoc.mp (knows_registry.mp hregistry).2 name i hfind

theorem interfaceStatic?
    (hh : Knows w h) (i : Interface) (name : String) :
    Knows w (h.interfaceStatic? i name) := by
  rw [Heap.interfaceStatic?]
  cases hfind : i.withExtended.findSome? fun j => (h.static? j.own.id name).map (·.value) with
  | none =>
      exact knows_none
  | some v =>
      obtain ⟨j, -, hj⟩ := List.exists_of_findSome?_eq_some hfind
      obtain ⟨slot, hslot, rfl⟩ := Option.map_eq_some_iff.mp hj
      have hknown := hh.static? j.own.id name
      rw [hslot] at hknown
      exact hknown

end Knows

/-! ### Quiet changes -/

namespace Quiet

variable {h : Heap}

theorem setArrays
    {as : Array (Array Value)} (h : Heap) (has : Knows w h → Knows w as) :
    Quiet w h { h with arrays := as } := by
  exact of_scopes_eq rfl rfl rfl rfl rfl (fun hh => hh.with_arrays (has hh)) rfl rfl

theorem setMaps
    {ms : Array KeyedMap} (h : Heap) (hms : Knows w h → Knows w ms) :
    Quiet w h { h with maps := ms } := by
  exact of_scopes_eq rfl rfl rfl rfl rfl (fun hh => hh.with_maps (hms hh)) rfl rfl

theorem newArray
    {xs : Array Value} (h : Heap) (hxs : Knows w xs) :
    Quiet w h (h.newArray xs).2 := by
  exact setArrays h fun hh => Knows.push (knows_heap.mp hh).2.1 hxs

theorem modifyArray
    {f : Array Value → Array Value} (h : Heap) (id : Nat)
    (hf : ∀ xs, Knows w xs → Knows w (f xs)) :
    Quiet w h (h.modifyArray id f) := by
  exact setArrays h fun hh => (knows_heap.mp hh).2.1.modify fun xs _ => hf xs

theorem newMap
    {m : KeyedMap} (h : Heap) (hm : Knows w m) :
    Quiet w h (h.newMap m).2 := by
  exact setMaps h fun hh => Knows.push (knows_heap.mp hh).2.2.1 hm

theorem modifyMap
    {f : KeyedMap → KeyedMap} (h : Heap) (id : Nat) (hf : ∀ m, Knows w m → Knows w (f m)) :
    Quiet w h (h.modifyMap id f) := by
  exact setMaps h fun hh => (knows_heap.mp hh).2.2.1.modify fun m _ => hf m

theorem insertInMap
    {k : KeyImage} {key v : Value} (h : Heap) (id : Nat) (hkey : Knows w key) (hv : Knows w v) :
    Quiet w h (h.insertInMap id k key v) := by
  exact modifyMap h id fun m hm => KeyedMap.knows_insert hm hkey hv

theorem newNumber
    (w : World) (h : Heap) :
    Quiet w h h.newNumber.2 := by
  exact of_scopes_eq rfl rfl rfl rfl rfl id rfl rfl

/-- Known types are registered, and they are lawful. -/
theorem setRegistry
    {r : Registry} (h : Heap) (hr : Knows w h.registry → Knows w r)
    (hlawful : Registry.Lawful h.registry → Registry.Lawful r) :
    Quiet w h { h with registry := r } where
  objects := rfl
  collections := rfl
  hub := rfl
  statics := rfl
  declared := rfl
  known hh := hh.with_registry (hr (knows_heap.mp hh).2.2.2.2.2.2.2.2.2.1)
  registry := hlawful
  bound hb := .inl ⟨_, hb⟩
  frames := id

theorem setOutput
    (w : World) (h : Heap) (s : String) :
    Quiet w h { h with output := s } := by
  exact of_scopes_eq rfl rfl rfl rfl rfl id rfl rfl

theorem setClock
    (w : World) (h : Heap) (t : Nat) :
    Quiet w h { h with clock := t } := by
  exact of_scopes_eq rfl rfl rfl rfl rfl id rfl rfl

/-- Futures change and jobs are queued. -/
theorem setFutures
    {fs : Array (Future Continuation)} {js : List Job} (h : Heap)
    (hfs : Knows w h → Knows w fs) (hjs : Knows w h → Knows w js) :
    Quiet w h { h with futures := fs, jobs := js } := by
  exact of_scopes_eq rfl rfl rfl rfl rfl (fun hh => hh.with_futures (hfs hh) (hjs hh)) rfl rfl

theorem setThreads
    {ts : Array (Option Outcome)} (h : Heap) (hts : Knows w h → Knows w ts) :
    Quiet w h { h with threads := ts } := by
  exact of_scopes_eq rfl rfl rfl rfl rfl (fun hh => hh.with_threads (hts hh)) rfl rfl

theorem trans
    {h' h'' : Heap} (h₁ : Quiet w h h') (h₂ : Quiet w h' h'') :
    Quiet w h h'' where
  objects := h₂.objects.trans h₁.objects
  collections := h₂.collections.trans h₁.collections
  hub := h₂.hub.trans h₁.hub
  statics := h₂.statics.trans h₁.statics
  declared := h₂.declared.trans h₁.declared
  known hh := h₂.known (h₁.known hh)
  registry hr := h₂.registry (h₁.registry hr)
  bound hb := by
    rcases h₂.bound hb with ⟨i, hi⟩ | hobeys
    · exact h₁.bound hi
    · exact .inr hobeys
  frames hr := h₂.frames (h₁.frames hr)

theorem newFuture
    (w : World) (h : Heap) (kind : FutureKind) :
    Quiet w h (h.newFuture kind).2 := by
  refine setFutures h (fun hh => ?_) fun hh => (knows_heap.mp hh).2.2.2.2.2.2.2.2.2.2
  refine Knows.push (knows_heap.mp hh).2.2.2.2.2.2.1 ?_
  simp [Future.ofKind]

theorem queueJobs
    {js : List Job} (h : Heap) (hjs : Knows w js) :
    Quiet w h { h with jobs := h.jobs ++ js } := by
  refine setFutures h (fun hh => (knows_heap.mp hh).2.2.2.2.2.2.1) fun hh => ?_
  exact knows_append.mpr ⟨(knows_heap.mp hh).2.2.2.2.2.2.2.2.2.2, hjs⟩

theorem settle
    {s : Settlement} (h : Heap) (id : Nat) (hs : Knows w s) :
    Quiet w h (h.settle id s).2 := by
  rw [Heap.settle]
  split
  · exact .refl w h
  · next f ks heq =>
      have hf (hh : Knows w h) : Knows w f ∧ Knows w ks := by
        have hknown := knows_future.mp (hh.future id)
        rw [Future.settle?] at heq
        split at heq
        · cases heq
        · cases heq
          exact ⟨knows_future.mpr ⟨hs, knows_nil⟩, hknown.2⟩
      refine setFutures h (fun hh => ?_) fun hh => knows_append.mpr ⟨?_, ?_⟩
      · exact (knows_heap.mp hh).2.2.2.2.2.2.1.setIfInBounds (hf hh).1
      · exact (knows_heap.mp hh).2.2.2.2.2.2.2.2.2.2
      · refine knows_list.mpr fun j hj => ?_
        obtain ⟨k, hk, rfl⟩ := List.mem_map.mp hj
        exact knows_continuationJob.mpr ⟨(hf hh).2.of_mem hk, hs⟩

theorem onSettle
    {k : Continuation} (h : Heap) (id : Nat) (hk : Knows w k.callback) :
    Quiet w h (h.onSettle id k) := by
  have hf (hh : Knows w h) := knows_future.mp (hh.future id)
  rw [Heap.onSettle, Future.onSettle]
  split
  · next f heq =>
      split at heq
      · cases heq
      · cases heq
        refine setFutures h (fun hh => ?_) fun hh => (knows_heap.mp hh).2.2.2.2.2.2.2.2.2.2
        refine (knows_heap.mp hh).2.2.2.2.2.2.1.setIfInBounds (knows_future.mpr ⟨(hf hh).1, ?_⟩)
        exact knows_append.mpr ⟨(hf hh).2, by simpa using hk⟩
  · next f s heq =>
      split at heq
      · cases heq
        refine setFutures h (fun hh => (knows_heap.mp hh).2.2.2.2.2.2.1) fun hh => ?_
        refine knows_append.mpr ⟨(knows_heap.mp hh).2.2.2.2.2.2.2.2.2.2, ?_⟩
        simpa using ⟨hk, (hf hh).1⟩
      · cases heq

end Quiet
end ScriptEngine
