import ScriptEngine.Proofs.Stores.Fitting

/-!
# What every change keeps

Each `Change` of one thread leaves what the threads hold in agreement with the world and the heap
(`Agree.change`).  This is proved by cases on the change; the run of a thread inherits it along its
`Path`.
-/

namespace ScriptEngine

/-! ### The threads -/

namespace Agree

variable {k k' : Hold} {ks ks' : List Hold} {w w' : World} {h h' : Heap}

/-- The order of the threads does not matter. -/
theorem perm
    (hs : Agree ks w h) (hperm : ks.Perm ks') :
    Agree ks' w h where
  fits := hs.fits
  known k hk := hs.known k (hperm.mem_iff.mpr hk)
  building s hmem := hs.building s ((hperm.flatMap_right _).mem_iff.mpr hmem)
  apart := ((hperm.flatMap_right _).map _).nodup_iff.mp hs.apart
  declaring d hd := hs.declaring d ((hperm.flatMap_right _).mem_iff.mpr hd)
  distinct := ((hperm.flatMap_right _).map _).nodup_iff.mp hs.distinct

/-- A thread that has finished all it began may go away. -/
theorem of_cons
    (hs : Agree (k :: ks) w h) (hbuilding : k.building = []) (hdeclaring : k.declaring = []) :
    Agree ks w h where
  fits := hs.fits
  known k hk := hs.known k (List.mem_cons_of_mem _ hk)
  building s hmem := hs.building s (by simpa [hbuilding] using hmem)
  apart := by simpa [hbuilding] using hs.apart
  declaring d hd := hs.declaring d (by simpa [hdeclaring] using hd)
  distinct := by simpa [hdeclaring] using hs.distinct

/-- A thread that has begun nothing may come in. -/
theorem cons
    (hs : Agree ks w h) (hknown : k.known ⊆ w) (hbuilding : k.building = [])
    (hdeclaring : k.declaring = []) :
    Agree (k :: ks) w h where
  fits := hs.fits
  known k' hk := by
    rcases List.mem_cons.mp hk with rfl | hk
    · exact hknown
    · exact hs.known k' hk
  building s hmem := hs.building s (by simpa [hbuilding] using hmem)
  apart := by simpa [hbuilding] using hs.apart
  declaring d hd := hs.declaring d (by simpa [hdeclaring] using hd)
  distinct := by simpa [hdeclaring] using hs.distinct

/-- What one thread holds fits by itself. -/
theorem head
    (hs : Agree (k :: ks) w h) :
    Agree [k] w h where
  fits := hs.fits
  known k' hk := hs.known k' (by simp_all)
  building s hmem := hs.building s (by simp_all)
  apart := by
    have hapart := hs.apart
    rw [List.flatMap_cons, List.map_append] at hapart
    simpa using (List.nodup_append.mp hapart).1
  declaring d hd := hs.declaring d (by simp_all)
  distinct := by
    have hdistinct := hs.distinct
    rw [List.flatMap_cons, List.map_append] at hdistinct
    simpa using (List.nodup_append.mp hdistinct).1

end Agree

/-! ### What is shared after a change -/

namespace Building

variable {h h' : Heap} {id : Nat} {left : List BuildEvent}

theorem lt
    (hb : Building h id left) :
    id < h.objects.size := by
  by_contra hle
  have hconstructing := hb.constructing
  rw [Heap.object, Array.getD_eq_getD_getElem?,
    Array.getElem?_eq_none (Nat.le_of_not_lt hle)] at hconstructing
  cases hconstructing

/-- A construction goes on while its instance stays as it is. -/
theorem keep
    (hb : Building h id left) (hobject : h'.object id = h.object id) :
    Building h' id left := by
  obtain ⟨hconstructing, hunbuilt, hkind, hcourse, hobey⟩ := hb
  exact ⟨hobject ▸ hconstructing, hobject ▸ hunbuilt, hobject ▸ hkind, hobject ▸ hcourse,
    hobject ▸ hobey⟩

/-- A construction goes on while another instance changes. -/
theorem keep_modify
    {i : Nat} (hb : Building h id left) (hi : i ≠ id) (f : ObjectState → ObjectState) :
    Building (h.modifyObject i f) id left := by
  refine hb.keep ?_
  rw [Heap.object_modify, if_neg fun heq => hi heq.1]

/-- A construction goes on while a further instance comes into being. -/
theorem keep_push
    (hb : Building h id left) (t : Traced ObjectState) :
    Building { h with objects := h.objects.push t } id left := by
  refine hb.keep ?_
  rw [Heap.object_push, if_neg hb.lt.ne]

/-- A construction takes a step: its instance is as an instance under construction is. -/
theorem modify
    {f : ObjectState → ObjectState} {left' : List BuildEvent} (hb : Building h id left)
    (hconstructing : (f (h.object id)).constructing = true)
    (hunbuilt : ¬BuildEvent.AllFilled left' → (f (h.object id)).built = false)
    (hkind : (f (h.object id)).self.cls.kind ≠ .record)
    (hcourse : (f (h.object id)).told.reverse ++ left' = (f (h.object id)).self.cls.course)
    (hobey : (f (h.object id)).self.FieldsObey (f (h.object id)).fields
      (BuildEvent.fieldsOf left')ᶜ) :
    Building (h.modifyObject id f) id left' := by
  have hobject := Heap.object_modify h id f id
  rw [if_pos ⟨rfl, hb.lt⟩] at hobject
  refine ⟨?_, fun hleft => ?_, ?_, ?_, ?_⟩ <;> rw [hobject]
  · exact hconstructing
  · exact hunbuilt hleft
  · exact hkind
  · exact hcourse
  · exact hobey

/-- A construction goes on while a field is given a value that obeys its type, if it is filled. -/
theorem setField
    {o : Instance} {name : String} {v : Value} (hb : Building h id left)
    (hself : (h.object o.id).self = o)
    (hv : o.id = id → name ∉ BuildEvent.fieldsOf left → o.Admits name v) :
    Building (h.setField o name v) id left := by
  by_cases hid : o.id = id
  · subst hid
    refine hb.modify hb.constructing hb.unbuilt hb.kind hb.course ?_
    exact hb.obey.insert (fun _ hother _ => hother) fun hname => hself.symm ▸ hv rfl hname
  · exact hb.keep_modify hid _

end Building

/-- A declaration goes on while the static fields stay as they are. -/
theorem Declaring.keep
    {h h' : Heap} {id n : Nat} (hd : Declaring h id n) (hstatics : h'.statics = h.statics) :
    Declaring h' id n := by
  have hsame : h'.staticsOf id = h.staticsOf id := by
    rw [Heap.staticsOf, Heap.staticsOf, hstatics]
  exact ⟨hstatics ▸ hd.lt, hsame ▸ hd.open_, hsame ▸ hd.length⟩

namespace Agree

variable {k k' : Hold} {ks : List Hold} {w w' : World} {h h' : Heap}

/-- The threads hold what they held where nothing of it is touched. -/
theorem refit
    (hs : Agree ks w h) (hfits : Fits w' h') (hw : w ⊆ w')
    (hbuilding : ∀ id left, Building h id left → Building h' id left)
    (hdeclaring : ∀ id n, Declaring h id n → Declaring h' id n) :
    Agree ks w' h' where
  fits := hfits
  known k hk := (hs.known k hk).trans hw
  building s hmem := hbuilding _ _ (hs.building s hmem)
  apart := hs.apart
  declaring d hd := hdeclaring _ _ (hs.declaring d hd)
  distinct := hs.distinct

theorem building_head
    {id : Nat} {left : List BuildEvent} {rest : List (Nat × List BuildEvent)}
    (hs : Agree (k :: ks) w h) (hk : k.building = (id, left) :: rest) :
    Building h id left := by
  exact hs.building (id, left) (by simp [hk])

/-- What is under construction besides the last instance is another instance. -/
theorem building_rest
    {id : Nat} {left : List BuildEvent} {rest : List (Nat × List BuildEvent)}
    (hs : Agree (k :: ks) w h) (hk : k.building = (id, left) :: rest)
    {s : Nat × List BuildEvent} (hmem : s ∈ rest ++ ks.flatMap (·.building)) :
    Building h s.1 s.2 ∧ id ≠ s.1 := by
  refine ⟨hs.building s ?_, ?_⟩
  · rw [List.flatMap_cons, hk]
    exact List.mem_cons_of_mem _ hmem
  · have hapart := hs.apart
    simp only [List.flatMap_cons, hk, List.cons_append, List.map_cons, List.nodup_cons] at hapart
    rintro rfl
    exact hapart.1 (List.mem_map_of_mem hmem)

/-- A thread gives its place to one that knows the same. -/
theorem known_replace
    (hs : Agree (k :: ks) w h) (hknown : k'.known = k.known) :
    ∀ j ∈ k' :: ks, j.known ⊆ w := by
  intro j hj
  rcases List.mem_cons.mp hj with rfl | hj
  · rw [hknown]
    exact hs.known k List.mem_cons_self
  · exact hs.known j (List.mem_cons_of_mem _ hj)

/-- The instance changes that a thread has under construction, and all others stay as they are. -/
theorem advance
    {id : Nat} {left left' : List BuildEvent} {rest : List (Nat × List BuildEvent)}
    {f : ObjectState → ObjectState} (hs : Agree (k :: ks) w h)
    (hk : k.building = (id, left) :: rest) (hfits : Fits w (h.modifyObject id f))
    (hnext : Building (h.modifyObject id f) id left') :
    Agree ({ k with building := (id, left') :: rest } :: ks) w (h.modifyObject id f) := by
  refine ⟨hfits, hs.known_replace rfl, fun s hmem => ?_, by simpa [hk] using hs.apart,
    fun d hd => (hs.declaring d hd).keep rfl, hs.distinct⟩
  simp only [List.flatMap_cons, List.cons_append, List.mem_cons] at hmem
  rcases hmem with rfl | hmem
  · exact hnext
  · obtain ⟨hold, hne⟩ := hs.building_rest hk hmem
    exact hold.keep_modify hne _

theorem quiet
    (hs : Agree ks w h) (hq : Quiet w h h') :
    Agree ks w h' := by
  have hfits : Fits w h' :=
    { known := hq.known hs.fits.known
      bound := fun hb => by
        rcases hq.bound hb with ⟨i, hi⟩ | hobeys
        · exact hs.fits.bound hi
        · exact hobeys
      frames := fun hr => hq.frames (hs.fits.frames hr)
      objects := hq.objects ▸ hs.fits.objects
      owners := by
        simpa only [Heap.object, hq.objects] using hs.fits.owners
      collections := hq.collections ▸ hs.fits.collections
      channels := hq.hub ▸ hs.fits.channels
      statics := hq.statics ▸ hs.fits.statics
      numbered := hq.statics ▸ hs.fits.numbered
      interfaces := hq.statics ▸ hs.fits.interfaces
      classes := hq.statics ▸ hs.fits.classes
      names := hq.declared ▸ hs.fits.names
      registry := hq.registry hs.fits.registry }
  refine hs.refit hfits Set.Subset.rfl (fun id left hb => ?_) fun id n hd => hd.keep hq.statics
  refine hb.keep ?_
  rw [Heap.object, Heap.object, hq.objects]

theorem learn
    {u : World} (hs : Agree (k :: ks) w h) (hu : u ⊆ w) :
    Agree ({ k with known := k.known ∪ u } :: ks) w h where
  fits := hs.fits
  known k' hk := by
    rcases List.mem_cons.mp hk with rfl | hk
    · exact Set.union_subset (hs.known k List.mem_cons_self) hu
    · exact hs.known k' (List.mem_cons_of_mem _ hk)
  building := hs.building
  apart := hs.apart
  declaring := hs.declaring
  distinct := hs.distinct

/-- A further instance comes into being. -/
theorem fits_push
    {o : Instance} {s : ObjectState} (hf : Fits w h) (hself : s.self = o)
    (hid : o.id = h.objects.size) (hcls : Knows w o.cls) (hstate : Knows w s)
    (hproper : s.Proper) :
    Fits (w ∪ {.object o}) { h with objects := h.objects.push (.new s) } := by
  subst hself
  have hpush := hf.objects.push hid hproper
  have hfits : Fits w { h with objects := h.objects.push (.new s) } :=
    { hf with
      known := hf.known.with_objects ((knows_heap.mp hf.known).2.2.2.1.push hstate)
      objects := hpush.anti fun _ => .inl
      owners := fun id => by
        rw [Heap.object_push]
        split
        · exact fun _ => (knows_class.mp hcls).1
        · exact hf.owners id }
  exact hfits.add (.object s.self) hpush

theorem record
    {o : Instance} {fields : Assoc Value} (hs : Agree ks w h) (hid : o.id = h.objects.size)
    (hkind : o.cls.kind = .record) (hcls : Knows w o.cls) (hfields : Knows w fields)
    (hcomponents : o.ComponentsObey fields) :
    Agree ks (w ∪ {.object o})
      { h with objects := h.objects.push (.new ⟨o, fields, false, true, []⟩) } := by
  have hproper : ObjectState.Proper ⟨o, fields, false, true, []⟩ :=
    ⟨⟨fun hne => absurd hkind hne, fun hne => absurd hkind hne, fun _ => hcomponents⟩,
      fun hne => absurd hkind hne, fun hne => absurd hkind hne⟩
  exact hs.refit (fits_push hs.fits rfl hid hcls hfields hproper) Set.subset_union_left
    (fun id left hb => hb.keep_push _) fun id n hd => hd.keep rfl

theorem start
    {o : Instance} (hs : Agree (k :: ks) w h)
    (hid : o.id = h.objects.size) (hkind : o.cls.kind ≠ .record) (hcls : Knows w o.cls) :
    Agree ({ k with building := (o.id, o.cls.course) :: k.building } :: ks) (w ∪ {.object o})
      { h with objects := h.objects.push (.new ⟨o, ∅, true, false, []⟩) } := by
  have hempty (names : Set String) : o.FieldsObey ∅ names := by
    intro name _ v hv
    cases hv
  have hproper : ObjectState.Proper ⟨o, ∅, true, false, []⟩ :=
    ⟨⟨fun _ _ => hempty _, fun _ => hempty _, fun hrecord => absurd hrecord hkind⟩,
      fun _ => List.nil_prefix, fun _ hbuilt => nomatch hbuilt⟩
  have hfits := fits_push hs.fits rfl hid hcls knows_assoc_empty hproper
  have hrest := hs.refit hfits Set.subset_union_left (fun id left hb => hb.keep_push _)
    fun id n hd => hd.keep rfl
  have hnew : Building { h with objects := h.objects.push (.new ⟨o, ∅, true, false, []⟩) } o.id
      o.cls.course := by
    have hobject := Heap.object_push h (.new ⟨o, ∅, true, false, []⟩) o.id
    rw [if_pos hid] at hobject
    refine ⟨?_, fun _ => ?_, ?_, ?_, ?_⟩ <;> rw [hobject]
    · rfl
    · rfl
    · exact hkind
    · rfl
    · exact hempty _
  refine ⟨hfits, hrest.known_replace rfl, ?_, ?_, hrest.declaring, hrest.distinct⟩
  · intro s hmem
    simp only [List.flatMap_cons, List.cons_append, List.mem_cons] at hmem
    rcases hmem with rfl | hmem
    · exact hnew
    · exact hrest.building s (by simpa only [List.flatMap_cons] using hmem)
  · simp only [List.flatMap_cons, List.cons_append, List.map_cons, List.nodup_cons]
    refine ⟨fun hmem => ?_, hs.apart⟩
    obtain ⟨s, hmem, heq⟩ := List.mem_map.mp hmem
    exact (hs.building s hmem).lt.ne (heq.trans hid)

/-- An instance changes as it may. -/
theorem fits_modifyObject
    {id : Nat} {f : ObjectState → ObjectState} (hf : Fits w h)
    (hknown : ∀ s, Knows w s → Knows w (f s))
    (hnow : (h.object id).Proper →
      (h.object id).Precedes (f (h.object id)) ∧ (f (h.object id)).Proper) :
    Fits w (h.modifyObject id f) :=
  { hf with
    known := hf.known.with_objects
      ((knows_heap.mp hf.known).2.2.2.1.modify fun _ _ => hknown _)
    objects := hf.objects.modify hnow
    owners := fun i => by
      rw [Heap.object_modify]
      split
      · next heq =>
          obtain ⟨rfl, hlt⟩ := heq
          have hproper := hf.objects.orderly.each _ (Array.getElem_mem hlt) _ List.mem_cons_self
          rw [getElem?_eq_getD (Array.getElem?_eq_getElem hlt) default] at hproper
          have hself : (f (h.object id)).self = (h.object id).self := (hnow hproper).1.self
          rw [ObjectState.Filled, hself]
          exact hf.owners id
      · exact hf.owners i }

/-- A field that is yet to be filled is given a value. -/
theorem setPending
    {o : Instance} {name : String} {left : List BuildEvent} {v : Value}
    {rest : List (Nat × List BuildEvent)} (hs : Agree (k :: ks) w h)
    (hk : k.building = (o.id, left) :: rest) (hname : name ∈ BuildEvent.fieldsOf left)
    (ho : .object o ∈ w) (hv : Knows w v) (honce : o.DeclaresOnce name → o.Admits name v) :
    Agree (k :: ks) w (h.setField o name v) := by
  have hhead := hs.building_head hk
  have hself : (h.object o.id).self = o := hs.fits.objects.self ho
  have hunbuilt := hhead.unbuilt fun hfilled => (hfilled.fieldsOf ▸ hname).elim
  have hfits : Fits w (h.setField o name v) := by
    refine fits_modifyObject hs.fits (fun s hs => hs.setField hv) fun hobey => ⟨?_, ?_⟩
    · exact .insert v fun _ => hhead.constructing
    · refine hobey.insert hhead.kind (fun hbuilt => ?_) fun hname => ?_
      · rw [hunbuilt] at hbuilt
        cases hbuilt
      · rw [hself] at hname ⊢
        exact honce hname
  have hagree := hs.advance hk hfits (hhead.setField hself fun _ hnot => absurd hname hnot)
  rwa [← hk] at hagree

/-- It is told what befalls an instance next. -/
theorem tell
    {o : Instance} {e : BuildEvent} {left : List BuildEvent} {rest : List (Nat × List BuildEvent)}
    (hs : Agree (k :: ks) w h) (hk : k.building = (o.id, e :: left) :: rest)
    (hobey : (h.object o.id).self.FieldsObey (h.object o.id).fields (BuildEvent.fieldsOf left)ᶜ) :
    Agree ({ k with building := (o.id, left) :: rest } :: ks) w (h.tell o e) := by
  have hhead := hs.building_head hk
  have hcourse : (e :: (h.object o.id).told).reverse ++ left = (h.object o.id).self.cls.course := by
    rw [List.reverse_cons, List.append_assoc, List.singleton_append, hhead.course]
  have hfits : Fits w (h.tell o e) := by
    refine fits_modifyObject hs.fits (fun s hs => hs) fun ⟨hold, honCourse⟩ =>
      ⟨⟨rfl, id, fun _ _ _ => rfl⟩, ⟨hold.fields, hold.once, hold.components⟩, fun _ => ?_, ?_⟩
    · exact ⟨left, hcourse⟩
    · intro hkind hbuilt
      refine (honCourse.filled hkind hbuilt).trans ?_
      rw [List.reverse_cons]
      exact List.prefix_append _ _
  refine hs.advance hk hfits (hhead.modify hhead.constructing ?_ hhead.kind hcourse hobey)
  exact fun hleft => hhead.unbuilt fun hfilled => hleft hfilled.of_cons

theorem fill
    {o : Instance} {c : ClassDef} {name : String} {id : ScopeId} {closure : Env} {v : Value}
    {left : List BuildEvent} {rest : List (Nat × List BuildEvent)} (hs : Agree (k :: ks) w h)
    (hk : k.building = (o.id, .filled c.id name :: left) :: rest) (ho : .object o ∈ w)
    (hframe : .frame id ⟨o, c⟩ ∈ w) (hv : Knows w v)
    (hadmits : name ∉ BuildEvent.fieldsOf left → o.Admits name v)
    (honce : o.DeclaresOnce name → o.Admits name v) :
    Agree ({ k with building := (o.id, left) :: rest } :: ks) w
      (h.fillField o name (id :: closure) v) := by
  have hstored := hs.setPending hk ⟨c.id, List.mem_cons_self⟩ ho hv honce
  have hhead := hstored.building_head hk
  have hreceiver : (h.setField o name v).scopes.receiverAt? id = some ⟨o, c⟩ := hs.fits.frames hframe
  rw [Heap.fillField, Heap.tellReceiver_eq closure _ hreceiver]
  refine hstored.tell hk fun other hother u hu => ?_
  by_cases hname : other = name
  · subst hname
    have hobject := Heap.object_modify h o.id
      (fun s => { s with fields := s.fields.insert other v }) o.id
    rw [if_pos ⟨rfl, (hs.building_head hk).lt⟩] at hobject
    rw [Heap.setField, hobject, Assoc.find?_insert, if_pos rfl] at hu
    cases hu
    exact (hstored.fits.objects.self ho).symm ▸ hadmits hother
  · refine hhead.obey other (fun ⟨i, hmem⟩ => ?_) u hu
    rcases List.mem_cons.mp hmem with heq | hmem
    · cases heq
      exact hname rfl
    · exact hother ⟨i, hmem⟩

/-- Something is told that fills no field. -/
theorem tell_of_fieldsOf
    {o : Instance} {e : BuildEvent} {left : List BuildEvent} {rest : List (Nat × List BuildEvent)}
    (hs : Agree (k :: ks) w h) (hk : k.building = (o.id, e :: left) :: rest)
    (he : ∀ id name, .filled id name ≠ e) :
    Agree ({ k with building := (o.id, left) :: rest } :: ks) w (h.tell o e) := by
  refine hs.tell hk fun other hother u hu => ?_
  refine (hs.building_head hk).obey other (fun ⟨i, hmem⟩ => ?_) u hu
  exact hother ⟨i, (List.mem_cons.mp hmem).resolve_left (he i other)⟩

theorem begin
    {o : Instance} {c : ClassDef} {name : String} {id : ScopeId} {closure : Env}
    {left : List BuildEvent} {rest : List (Nat × List BuildEvent)} (hs : Agree (k :: ks) w h)
    (hk : k.building = (o.id, .begun c.id name :: left) :: rest) (hframe : .frame id ⟨o, c⟩ ∈ w) :
    Agree ({ k with building := (o.id, left) :: rest } :: ks) w
      (h.beginField name (id :: closure)) := by
  rw [Heap.beginField, Heap.tellReceiver_eq closure _ (hs.fits.frames hframe)]
  exact hs.tell_of_fieldsOf hk fun _ _ heq => nomatch heq

theorem enter
    {o : Instance} {left : List BuildEvent} {rest : List (Nat × List BuildEvent)}
    (hs : Agree (k :: ks) w h) (hk : k.building = (o.id, .entered :: left) :: rest) :
    Agree ({ k with building := (o.id, left) :: rest } :: ks) w (h.tell o .entered) := by
  exact hs.tell_of_fieldsOf hk fun _ _ heq => nomatch heq

theorem write
    {o : Instance} {name : String} {v : Value} (hs : Agree ks w h) (ho : .object o ∈ w)
    (hv : Knows w v) (hmay : o.Immutable name → (h.object o.id).constructing = true)
    (hkind : o.cls.kind ≠ .record) (hadmits : o.Admits name v) :
    Agree ks w (h.setField o name v) := by
  have hself : (h.object o.id).self = o := hs.fits.objects.self ho
  have hfits : Fits w (h.setField o name v) := by
    refine fits_modifyObject hs.fits (fun s hs => hs.setField hv) fun hobey => ⟨?_, ?_⟩
    · exact .insert v (hself.symm ▸ hmay)
    · exact hobey.insert (hself.symm ▸ hkind) (fun _ => hself.symm ▸ hadmits)
        fun _ => hself.symm ▸ hadmits
  exact hs.refit hfits Set.Subset.rfl (fun id left hb => hb.setField hself fun _ _ => hadmits)
    fun id n hd => hd.keep rfl

theorem complete
    {o : Instance} {left : List BuildEvent} {rest : List (Nat × List BuildEvent)}
    (hs : Agree (k :: ks) w h) (hk : k.building = (o.id, left) :: rest)
    (hfilled : BuildEvent.AllFilled left) :
    Agree (k :: ks) w (h.markBuilt o) := by
  have hhead := hs.building_head hk
  have hfits : Fits w (h.markBuilt o) := by
    refine fits_modifyObject hs.fits (fun s hs => hs) fun ⟨hobey, honCourse⟩ =>
      ⟨⟨rfl, id, fun _ _ _ => rfl⟩,
        ⟨fun _ _ name _ => hhead.obey name ?_, hobey.once, hobey.components⟩, honCourse.course,
        fun _ _ => hfilled.fillings hhead.course⟩
    rw [hfilled.fieldsOf, Set.compl_empty]
    exact Set.mem_univ name
  have hnext : Building (h.markBuilt o) o.id left :=
    hhead.modify hhead.constructing (fun hleft => absurd hfilled hleft) hhead.kind hhead.course
      hhead.obey
  have hagree := hs.advance hk hfits hnext
  rwa [← hk] at hagree

theorem finish
    {o : Instance} {left : List BuildEvent} {rest : List (Nat × List BuildEvent)}
    (hs : Agree (k :: ks) w h) (hk : k.building = (o.id, left) :: rest) :
    Agree ({ k with building := rest } :: ks) w (h.endConstruction o) := by
  have hhead := hs.building_head hk
  have hfits : Fits w (h.endConstruction o) := by
    refine fits_modifyObject hs.fits (fun s hs => hs) fun ⟨hobey, honCourse⟩ =>
      ⟨⟨rfl, fun _ => rfl, ?_⟩, ?_, honCourse.course, honCourse.filled⟩
    · exact fun _ _ _ => rfl
    · exact ⟨hobey.fields, hobey.once, hobey.components⟩
  refine ⟨hfits, hs.known_replace rfl, fun s hmem => ?_, ?_,
    fun d hd => (hs.declaring d hd).keep rfl, hs.distinct⟩
  · obtain ⟨hold, hne⟩ := hs.building_rest hk hmem
    exact hold.keep_modify hne _
  · have hapart := hs.apart
    simp only [List.flatMap_cons, hk, List.cons_append, List.map_cons, List.nodup_cons] at hapart
    exact hapart.2

theorem openCollection
    {c : Collection} (hs : Agree ks w h) (hid : c.id = h.collections.size) :
    Agree ks (w ∪ {.collection c})
      { h with collections := h.collections.push (Heap.emptyData c.kind) } := by
  have hpush := hs.fits.collections.push hid
  have hfits : Fits w { h with collections := h.collections.push (Heap.emptyData c.kind) } :=
    { hs.fits with
      known := hs.fits.known.with_collections
        ((knows_heap.mp hs.fits.known).2.2.2.2.1.push (knows_emptyData w c.kind))
      collections := hpush.anti fun _ => .inl }
  exact hs.refit (hfits.add (.collection c) hpush) Set.subset_union_left
    (fun id left hb => hb.keep rfl)
    fun id n hd => hd.keep rfl

theorem elements
    {c : Collection} {f : CollectionContents → CollectionContents} (hs : Agree ks w h)
    (hc : .collection c ∈ w)
    (hdata : ∀ d, Knows w d → c.Takes d → Knows w (f d) ∧ c.Takes (f d)) :
    Agree ks w (h.modifyCollection c.id f) := by
  have hcollections := (knows_heap.mp hs.fits.known).2.2.2.2.1
  have hfits : Fits w (h.modifyCollection c.id f) :=
    { hs.fits with
      known := hs.fits.known.with_collections (hcollections.modify fun d hd hknown => by
        have htakes := hs.fits.collections.takes hc
        rw [Array.getD_eq_getD_getElem?, hd] at htakes
        exact (hdata d hknown htakes).1)
      collections := hs.fits.collections.modify hcollections hc hdata }
  exact hs.refit hfits Set.Subset.rfl
    (fun id left hb => hb.keep rfl)
    fun id n hd => hd.keep rfl

theorem openChannel
    {t : Option TypeExpr} {capacity : Option Nat} (hs : Agree ks w h) :
    Agree ks (w ∪ {.channel h.hub.channels.size t})
      { h with hub := (h.hub.add capacity).2 } := by
  have hhub : Knows w (h.hub.add capacity).2 := by
    have hnew : Knows w (Channel.ofCapacity capacity : Channel Value) := by
      simp [Channel.ofCapacity]
    exact Knows.push (l := h.hub.channels) (knows_heap.mp hs.fits.known).2.2.2.2.2.1 hnew
  have hadd := hs.fits.channels.add t capacity
  have hfits : Fits w { h with hub := (h.hub.add capacity).2 } :=
    { hs.fits with
      known := hs.fits.known.with_hub hhub
      channels := hadd.anti fun _ _ => .inl }
  exact hs.refit (hfits.add (.channel h.hub.channels.size t) hadd) Set.subset_union_left
    (fun id left hb => hb.keep rfl)
    fun id n hd => hd.keep rfl

theorem hub
    {u : Hub Value} (hs : Agree ks w h) (hsize : h.hub.channels.size ≤ u.channels.size)
    (hu : Knows w h.hub → Knows w u)
    (hqueue : ∀ id, ∀ v ∈ (u.channel id).queue, v ∈ (h.hub.channel id).queue ∨
      ∀ t, .channel id t ∈ w → ObeysOption v t []) :
    Agree ks w { h with hub := u } := by
  have hfits : Fits w { h with hub := u } :=
    { hs.fits with
      known := hs.fits.known.with_hub (hu (knows_heap.mp hs.fits.known).2.2.2.2.2.1)
      channels := hs.fits.channels.step hsize hqueue }
  exact hs.refit hfits Set.Subset.rfl
    (fun id left hb => hb.keep rfl)
    fun id n hd => hd.keep rfl

/-- What the code of a frame runs on gets known. -/
theorem notice
    {id : ScopeId} {r : Receiver} (hs : Agree ks w h) (hr : h.scopes.receiverAt? id = some r) :
    Agree ks (w ∪ {.frame id r}) h := by
  exact hs.refit (hs.fits.add (.frame id r) hr) Set.subset_union_left
    (fun id left hb => hb) fun id n hd => hd

/-- A place for static fields is opened, whatever names are declared then. -/
theorem open_of_fits
    {declared : List String} (hs : Agree (k :: ks) w h) (hw : w ⊆ w')
    (hfits : Fits w' { h with statics := h.statics.push (.new default), declared := declared }) :
    Agree ({ k with declaring := (h.statics.size, 0) :: k.declaring } :: ks) w'
      { h with statics := h.statics.push (.new default), declared := declared } := by
  have hpushed (id : Nat) :
      Heap.staticsOf { h with statics := h.statics.push (.new default), declared := declared } id =
        if id = h.statics.size then (Traced.new default).now else h.staticsOf id :=
    Heap.staticsOf_push h (.new default) id
  have hold {id n : Nat} (hd : Declaring h id n) :
      Declaring { h with statics := h.statics.push (.new default), declared := declared } id n := by
    have hsame := hpushed id
    rw [if_neg hd.lt.ne] at hsame
    refine ⟨?_, hsame ▸ hd.open_, hsame ▸ hd.length⟩
    rw [Array.size_push]
    exact Nat.lt_succ_of_lt hd.lt
  have hnew : Declaring { h with statics := h.statics.push (.new default), declared := declared }
      h.statics.size 0 := by
    have hsame := hpushed h.statics.size
    rw [if_pos rfl] at hsame
    refine ⟨by simp, ?_, ?_⟩ <;> rw [hsame] <;> rfl
  have hrest := hs.refit hfits hw (fun id left hb => hb.keep rfl) fun id n => hold
  refine ⟨hfits, hrest.known_replace rfl, hrest.building, hrest.apart, ?_, ?_⟩
  · intro d hd
    simp only [List.flatMap_cons, List.cons_append, List.mem_cons] at hd
    rcases hd with rfl | hd
    · exact hnew
    · exact hrest.declaring d (by simpa only [List.flatMap_cons] using hd)
  · simp only [List.flatMap_cons, List.cons_append, List.map_cons, List.nodup_cons]
    refine ⟨fun hmem => ?_, by simpa only [List.flatMap_cons] using hs.distinct⟩
    obtain ⟨d, hd, heq⟩ := List.mem_map.mp hmem
    exact (hs.declaring d (by simpa only [List.flatMap_cons] using hd)).lt.ne heq

theorem fits_pushStatics
    {declared : List String} (hf : Fits w h) (hnames : NamesFit w declared) :
    Fits w { h with statics := h.statics.push (.new default), declared := declared } :=
  { hf with
    known := hf.known.with_statics ((knows_heap.mp hf.known).2.2.2.2.2.2.2.2.1.push
      (knows_statics.mpr ⟨knows_assoc_empty, knows_nil⟩))
    statics := hf.statics.push fun name slot hslot => by cases hslot
    numbered := fun id s hmem => by
      rw [getD_push] at hmem
      split at hmem
      · rw [Traced.states_new, List.mem_singleton] at hmem
        exact hmem ▸ Statics.numbered_default w id
      · exact hf.numbered id s hmem
    interfaces := hf.interfaces.mono (by simp)
    classes := hf.classes.mono (by simp)
    names := hnames }

theorem openStatics
    (hs : Agree (k :: ks) w h) :
    Agree ({ k with declaring := (h.statics.size, 0) :: k.declaring } :: ks) w
      { h with statics := h.statics.push (.new default) } := by
  exact hs.open_of_fits Set.Subset.rfl (fits_pushStatics hs.fits hs.fits.names)

theorem openClass
    {c : ClassDef} (hs : Agree (k :: ks) w h) (hid : c.id = h.statics.size)
    (hup : ∀ d ∈ c.lineage, d = c ∨ .cls d ∈ w) :
    Agree ({ k with declaring := (h.statics.size, 0) :: k.declaring } :: ks) (w ∪ {.cls c})
      { h with statics := h.statics.push (.new default), declared := c.name :: h.declared } := by
  have hpushed := fits_pushStatics hs.fits (hs.fits.names.cons c.name)
  refine hs.open_of_fits Set.subset_union_left (hpushed.add (.cls c) ?_)
  rw [Fact.Fits, Array.size_push]
  exact ⟨hs.fits.classes.push hid hup, hs.fits.names.push (.cls c)⟩

theorem openInterface
    {i : Interface} (hs : Agree (k :: ks) w h) (hid : i.own.id = h.statics.size) :
    Agree ({ k with declaring := (h.statics.size, 0) :: k.declaring } :: ks) (w ∪ {.interface i})
      { h with statics := h.statics.push (.new default), declared := i.name :: h.declared } := by
  have hpushed := fits_pushStatics hs.fits (hs.fits.names.cons i.name)
  refine hs.open_of_fits Set.subset_union_left (hpushed.add (.interface i) ?_)
  rw [Fact.Fits, Array.size_push]
  exact ⟨hs.fits.interfaces.push hid, hs.fits.names.push (.interface i)⟩

/-- The static fields of a type change as they may. -/
theorem fits_modifyStatics
    {id : Nat} {f : Statics → Statics} (hf : Fits w h)
    (hknown : ∀ s, Knows w s → Knows w (f s))
    (hnow : (h.staticsOf id).Obey →
      (h.staticsOf id).Precedes (f (h.staticsOf id)) ∧ (f (h.staticsOf id)).Obey)
    (hnumbered : (h.staticsOf id).Numbered w id → (f (h.staticsOf id)).Numbered w id) :
    Fits w (h.modifyStatics id f) :=
  { hf with
    known := hf.known.with_statics
      ((knows_heap.mp hf.known).2.2.2.2.2.2.2.2.1.modify fun _ _ => hknown _)
    statics := hf.statics.modify .trans hnow
    numbered := fun i s hmem => by
      rw [Heap.modifyStatics, getD_modify] at hmem
      split at hmem
      · next heq =>
          obtain ⟨rfl, -⟩ := heq
          rw [Traced.states_change, List.mem_cons] at hmem
          rcases hmem with rfl | hold
          · exact hnumbered (hf.numbered id _ List.mem_cons_self)
          · exact hf.numbered id s hold
      · exact hf.numbered i s hmem
    interfaces := hf.interfaces.mono (by simp [Heap.modifyStatics])
    classes := hf.classes.mono (by simp [Heap.modifyStatics]) }

/-- A declaration goes on while the static fields of another type change, or its own so that their
constants remain. -/
theorem Declaring.keep_modify
    {id i n : Nat} {f : Statics → Statics} (hd : Declaring h i n)
    (hf : id = i → (f (h.staticsOf i)).declared = (h.staticsOf i).declared ∧
      (f (h.staticsOf i)).constants = (h.staticsOf i).constants) :
    Declaring (h.modifyStatics id f) i n := by
  have hsize : i < (h.modifyStatics id f).statics.size := by
    rw [Heap.modifyStatics, Array.size_modify]
    exact hd.lt
  have hsame := Heap.staticsOf_modify h id f i
  split at hsame
  · next heq =>
      obtain ⟨hdeclared, hconstants⟩ := hf heq.1
      refine ⟨hsize, ?_, ?_⟩ <;> rw [hsame]
      · rw [hdeclared, hd.open_]
      · rw [hconstants, hd.length]
  · exact ⟨hsize, hsame ▸ hd.open_, hsame ▸ hd.length⟩

/-- A static field is assigned to. -/
theorem assign
    {id : Nat} {name : String} {slot : StaticField} {v : Value} (hs : Agree ks w h)
    (hslot : h.static? id name = some slot) (himmutable : slot.kind.isImmutable = false)
    (hv : Knows w v) (hobeys : ObeysOption v slot.type []) :
    Agree ks w (h.setStatic id name { slot with value := v }) := by
  have hfits : Fits w (h.setStatic id name { slot with value := v }) := by
    refine fits_modifyStatics hs.fits (fun s hknown => ?_)
      (fun hold => ⟨.insert hslot himmutable _, hold.insert hobeys⟩) fun hold =>
        ⟨hold.constants, fun other hother => ?_⟩
    · rw [knows_statics] at hknown ⊢
      exact ⟨hknown.1.insert hv, hknown.2⟩
    · rw [Assoc.find?_insert]
      split
      · next heq =>
          -- a name that stands for a constant must not be assigned to
          subst heq
          have hfind : (h.staticsOf id).slots.find? name = some slot := hslot
          rw [hold.slots name hother, Option.map_eq_some_iff] at hfind
          obtain ⟨u, -, rfl⟩ := hfind
          cases himmutable
      · exact hold.slots other hother
  exact hs.refit hfits Set.Subset.rfl (fun i left hb => hb.keep rfl)
    fun i n hd => Declaring.keep_modify hd fun _ => ⟨rfl, rfl⟩

/-- What a thread holds of the types under declaration besides the last one concerns other types. -/
theorem declaring_rest
    {id n : Nat} {rest : List (Nat × Nat)} (hs : Agree (k :: ks) w h)
    (hk : k.declaring = (id, n) :: rest) {d : Nat × Nat}
    (hmem : d ∈ rest ++ ks.flatMap (·.declaring)) :
    Declaring h d.1 d.2 ∧ id ≠ d.1 := by
  refine ⟨hs.declaring d ?_, ?_⟩
  · rw [List.flatMap_cons, hk]
    exact List.mem_cons_of_mem _ hmem
  · have hdistinct := hs.distinct
    simp only [List.flatMap_cons, hk, List.cons_append, List.map_cons, List.nodup_cons] at hdistinct
    rintro rfl
    exact hdistinct.1 (List.mem_map_of_mem hmem)

/-- The static fields of a type change in any way while it is under declaration, but its constants
get the numbers of their places. -/
theorem declare
    {id n m : Nat} {rest : List (Nat × Nat)} {f : Statics → Statics} (hs : Agree (k :: ks) w h)
    (hk : k.declaring = (id, n) :: rest) (hknown : ∀ s, Knows w s → Knows w (f s))
    (hobey : ∀ s, s.Obey → (f s).Obey) (hdeclared : ∀ s, (f s).declared = s.declared)
    (hlength : ∀ s, s.constants.length = n → (f s).constants.length = m)
    (hnumbered : ∀ s, s.constants.length = n → s.Numbered w id → (f s).Numbered w id) :
    Agree ({ k with declaring := (id, m) :: rest } :: ks) w (h.modifyStatics id f) := by
  have hhead : Declaring h id n := hs.declaring (id, n) (by simp [hk])
  have hfits : Fits w (h.modifyStatics id f) := fits_modifyStatics hs.fits hknown
    (fun hold => ⟨.of_declaring hhead.open_, hobey _ hold⟩) (hnumbered _ hhead.length)
  refine ⟨hfits, hs.known_replace rfl, fun s hmem => (hs.building s hmem).keep rfl, hs.apart,
    fun d hd => ?_, ?_⟩
  · simp only [List.flatMap_cons, List.cons_append, List.mem_cons] at hd
    rcases hd with rfl | hd
    · have hsame := Heap.staticsOf_modify h id f id
      rw [if_pos ⟨rfl, hhead.lt⟩] at hsame
      refine ⟨?_, ?_, ?_⟩
      · rw [Heap.modifyStatics, Array.size_modify]
        exact hhead.lt
      · rw [hsame, hdeclared, hhead.open_]
      · rw [hsame, hlength _ hhead.length]
    · obtain ⟨hold, hne⟩ := hs.declaring_rest hk hd
      exact Declaring.keep_modify hold fun heq => absurd heq hne
  · simpa [hk] using hs.distinct

/-- A thread has done with a declaration. -/
theorem leaveStatics
    {id n : Nat} {rest : List (Nat × Nat)} (hs : Agree (k :: ks) w h)
    (hk : k.declaring = (id, n) :: rest) :
    Agree ({ k with declaring := rest } :: ks) w h := by
  have hdistinct := hs.distinct
  simp only [List.flatMap_cons, hk, List.cons_append, List.map_cons, List.nodup_cons] at hdistinct
  exact ⟨hs.fits, hs.known_replace rfl, hs.building, hs.apart,
    fun d hd => (hs.declaring_rest hk hd).1, hdistinct.2⟩

theorem closeStatics
    {id n : Nat} {rest : List (Nat × Nat)} (hs : Agree (k :: ks) w h)
    (hk : k.declaring = (id, n) :: rest) :
    Agree ({ k with declaring := rest } :: ks) w (h.endDeclaration id) := by
  have hleft := hs.leaveStatics hk
  have hhead : Declaring h id n := hs.declaring (id, n) (by simp [hk])
  have hfits : Fits w (h.endDeclaration id) :=
    fits_modifyStatics hs.fits (fun s hs => hs) (fun hobey => ⟨.of_declaring hhead.open_, hobey⟩)
      fun hold => ⟨hold.constants, hold.slots⟩
  refine ⟨hfits, hleft.known, fun s hmem => (hleft.building s hmem).keep rfl, hleft.apart,
    fun d hd => ?_, hleft.distinct⟩
  obtain ⟨hold, hne⟩ := hs.declaring_rest hk hd
  exact Declaring.keep_modify hold fun heq => absurd heq hne

/-- Whatever a thread does, what it holds and what the others hold fits in the end. -/
theorem change
    (hs : Agree (k :: ks) w h) (hc : Change k w h k' w' h') :
    Agree (k' :: ks) w' h' := by
  cases hc with
  | quiet hq =>
      exact hs.quiet hq
  | learn hu =>
      exact hs.learn hu
  | notice hr =>
      exact hs.notice hr
  | record hid hkind hcls hfields hcomponents =>
      exact hs.record hid hkind hcls hfields hcomponents
  | start hid hkind hcls =>
      exact hs.start hid hkind hcls
  | fill hk ho hframe hv hadmits honce =>
      exact hs.fill hk ho hframe hv hadmits honce
  | begin hk hframe =>
      exact hs.begin hk hframe
  | enter hk =>
      exact hs.enter hk
  | write ho hv hmay hkind hadmits =>
      exact hs.write ho hv hmay hkind hadmits
  | complete hk hfilled =>
      exact hs.complete hk hfilled
  | finish hk =>
      exact hs.finish hk
  | openCollection hid =>
      exact hs.openCollection hid
  | elements hmem hdata =>
      exact hs.elements hmem hdata
  | openChannel =>
      exact hs.openChannel
  | hub hsize hu hqueue =>
      exact hs.hub hsize hu hqueue
  | openStatics =>
      exact hs.openStatics
  | openClass hid hup =>
      exact hs.openClass hid hup
  | openInterface hid =>
      exact hs.openInterface hid
  | declare hk hknown hobey hdeclared hlength hnumbered =>
      exact hs.declare hk hknown hobey hdeclared hlength hnumbered
  | closeStatics hk =>
      exact hs.closeStatics hk
  | leaveStatics hk =>
      exact hs.leaveStatics hk
  | assign hslot himmutable hv hobeys =>
      exact hs.assign hslot himmutable hv hobeys

end Agree
end ScriptEngine
