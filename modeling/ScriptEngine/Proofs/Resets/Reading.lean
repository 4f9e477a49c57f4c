import ScriptEngine.Proofs.Resets.Forgetting

/-!
# What is read off a heap without what is old

Whatever code asks of something recent, a heap answers alike whether or not the old is forgotten:
its contents, its text, its type, and what it equals.  What it is given in a renewed heap is recent
again.
-/

namespace ScriptEngine

/-! ### Lists -/

private theorem findSome?_congr
    {α β : Type} {f g : α → Option β} {as : List α} (hfg : ∀ a ∈ as, f a = g a) :
    as.findSome? f = as.findSome? g := by
  induction as with
  | nil =>
      rfl
  | cons a as ih =>
      obtain ⟨ha, has⟩ := List.forall_mem_cons.mp hfg
      rw [List.findSome?_cons, List.findSome?_cons, ha, ih has]

private theorem mapM_congr
    {α β : Type} {f g : α → Option β} {as : List α} (hfg : ∀ a ∈ as, f a = g a) :
    as.mapM f = as.mapM g := by
  induction as with
  | nil =>
      rfl
  | cons a as ih =>
      obtain ⟨ha, has⟩ := List.forall_mem_cons.mp hfg
      rw [List.mapM_cons, List.mapM_cons, ha, ih has]

section Reading

variable {t : Epoch} {h : Heap} {id n : Nat} {v : Value} {o : Instance}

namespace Heap

/-! ### Places -/

@[simp] theorem scopes_forget : (h.forget t).scopes = h.scopes.forget t := rfl
@[simp] theorem hub_forget : (h.forget t).hub = h.hub.forget t := rfl
@[simp] theorem registry_forget : (h.forget t).registry = h.registry := rfl
@[simp] theorem clock_forget : (h.forget t).clock = h.clock := rfl
@[simp] theorem jobs_forget : (h.forget t).jobs = h.jobs := rfl

@[simp] theorem depthLimit_forget : (h.forget t).depthLimit = h.depthLimit := by
  simp [depthLimit, forget, Memory.forget]

theorem array_forget (hid : t.arrays ≤ id) : (h.forget t).array id = h.array id := getD_of_le hid

theorem map_forget (hid : t.maps ≤ id) : (h.forget t).map id = h.map id := getD_of_le hid

theorem object_forget
    (hid : t.objects ≤ id) :
    (h.forget t).object id = h.object id := by
  exact congrArg Traced.now (getD_of_le hid)

theorem collection_forget
    (hid : t.collections ≤ id) :
    (h.forget t).collection id = h.collection id := by
  exact getD_of_le hid

theorem channel_forget
    (hid : t.channels ≤ id) :
    (h.forget t).channel id = h.channel id := by
  exact getD_of_le hid

theorem future_forget
    (hid : t.futures ≤ id) :
    (h.forget t).future id = h.future id := by
  exact getD_of_le hid

theorem thread_forget
    (hid : t.threads ≤ id) :
    (h.forget t).threads[id]? = h.threads[id]? := by
  exact getElem?_of_le hid

theorem staticsOf_forget
    (hid : t.statics ≤ id) :
    (h.forget t).staticsOf id = h.staticsOf id := by
  exact congrArg Traced.now (getD_of_le hid)

theorem field?_forget
    (ho : Recent t o) (name : String) :
    (h.forget t).field? o name = h.field? o name := by
  rw [field?, field?, object_forget ho.1]

theorem static?_forget
    (hid : t.statics ≤ id) (name : String) :
    (h.forget t).static? id name = h.static? id name := by
  rw [static?, static?, staticsOf_forget hid]

namespace Renewed

variable (hh : h.Renewed t)

include hh

theorem array (hid : t.arrays ≤ id) : Recent t (h.array id) := hh.arrays.getD hid recent_array_empty

theorem map (hid : t.maps ≤ id) : Recent t (h.map id) := hh.maps.getD hid KeyedMap.recent_empty

theorem object
    (hid : t.objects ≤ id) :
    Recent t (h.object id) := by
  exact hh.objects.getD (P := Recent t) hid recent_assoc_empty

theorem collection
    (hid : t.collections ≤ id) :
    Recent t (h.collection id) := by
  exact hh.collections.getD (P := Recent t) hid recent_array_empty

theorem channel
    (hid : t.channels ≤ id) :
    Recent t (h.channel id) := by
  exact hh.channels.getD (P := Recent t) hid ⟨recent_nil, nofun⟩

theorem future
    (hid : t.futures ≤ id) :
    Recent t (h.future id) := by
  exact hh.futures.getD (P := Recent t) hid ⟨recent_pending, recent_nil⟩

theorem thread
    (hid : t.threads ≤ id) {outcome : Outcome}
    (houtcome : (h.threads[id]?).getD none = some outcome) :
    Recent t outcome := by
  cases ha : h.threads[id]? with
  | none =>
      rw [ha] at houtcome
      cases houtcome
  | some a =>
      rw [ha] at houtcome
      exact hh.threads.holds id a hid ha outcome houtcome

theorem staticsOf
    (hid : t.statics ≤ id) :
    Recent t (h.staticsOf id) := by
  exact hh.statics.getD (P := Recent t) hid ⟨recent_assoc_empty, recent_nil⟩

theorem field?
    (ho : Recent t o) (name : String) :
    Recent t (h.field? o name) := by
  exact (hh.object ho.1).find? name

theorem static?
    (hid : t.statics ≤ id) (name : String) :
    Recent t (h.static? id name) := by
  exact (hh.staticsOf hid).1.find? name

end Renewed

/-! ### Static fields -/

theorem staticHome?_forget
    {c : ClassDef} (hc : Recent t c) (name : String) :
    (h.forget t).staticHome? c name = h.staticHome? c name := by
  refine findSome?_congr fun d hd => ?_
  rw [static?_forget (hc.lineage d hd).classId]

theorem classStatic?_forget
    {c : ClassDef} (hc : Recent t c) (name : String) :
    (h.forget t).classStatic? c name = h.classStatic? c name := by
  rw [classStatic?, classStatic?, staticHome?_forget hc]

theorem interfaceStatic?_forget
    {i : Interface} (hi : Recent t i) (name : String) :
    (h.forget t).interfaceStatic? i name = h.interfaceStatic? i name := by
  refine findSome?_congr fun j hj => ?_
  rw [static?_forget (hi.withExtended j hj).interfaceId]

theorem Renewed.staticHome?
    {c d : ClassDef} {name : String} {slot : StaticField} (hh : h.Renewed t) (hc : Recent t c)
    (hd : h.staticHome? c name = some (d, slot)) :
    Recent t d ∧ Recent t slot := by
  unfold Heap.staticHome? at hd
  obtain ⟨e, he, hslot⟩ := List.exists_of_findSome?_eq_some hd
  obtain ⟨s, hs, heq⟩ := Option.map_eq_some_iff.mp hslot
  cases heq
  have hrecent := hc.lineage d he
  exact ⟨hrecent, hh.static? hrecent.classId name slot hs⟩

theorem Renewed.classStatic?
    {c : ClassDef} (hh : h.Renewed t) (hc : Recent t c) (name : String) :
    Recent t (h.classStatic? c name) := by
  refine Recent.map_some fun r hr => ?_
  exact (hh.staticHome? hc hr).2

theorem Renewed.interfaceStatic?
    {i : Interface} (hh : h.Renewed t) (hi : Recent t i) (name : String) :
    Recent t (h.interfaceStatic? i name) := by
  intro v hv
  unfold Heap.interfaceStatic? at hv
  obtain ⟨j, hj, hslot⟩ := List.exists_of_findSome?_eq_some hv
  obtain ⟨s, hs, rfl⟩ := Option.map_eq_some_iff.mp hslot
  exact hh.static? (hi.withExtended j hj).interfaceId name s hs

/-! ### Texts and keys -/

theorem displayWithin_forget
    (hh : h.Renewed t) (hv : Recent t v) :
    (h.forget t).displayWithin n v = h.displayWithin n v := by
  induction n generalizing v with
  | zero =>
      rfl
  | succ n ih =>
      have hlist {vs : List Value} (hvs : Recent t vs) :
          vs.map ((h.forget t).displayWithin n) = vs.map (h.displayWithin n) :=
        List.map_congr_left fun a ha => ih (hvs a ha)
      have hpairs {m : KeyedMap} (hm : Recent t m) :
          (m.entries.toList.map fun e =>
              ((h.forget t).displayWithin n e.1, (h.forget t).displayWithin n e.2)) =
            m.entries.toList.map fun e => (h.displayWithin n e.1, h.displayWithin n e.2) := by
        refine List.map_congr_left fun e he => ?_
        obtain ⟨hkey, hvalue⟩ := hm e (Array.mem_toList_iff.mp he)
        rw [ih hkey, ih hvalue]
      cases v with
      | array id =>
          have harray : Recent t (h.array id).toList := recent_toList.mpr (hh.array hv)
          rw [displayWithin, displayWithin, array_forget (recent_varray.mp hv), hlist harray]
      | map id =>
          rw [displayWithin, displayWithin, map_forget (recent_vmap.mp hv), hpairs (hh.map hv)]
      | object o =>
          have hfield (name : String) :
              (h.forget t).displayWithin n ((h.field? o name).getD .nil) =
                h.displayWithin n ((h.field? o name).getD .nil) :=
            ih ((hh.field? hv name).getD recent_vnil)
          rw [displayWithin, displayWithin]
          simp only [field?_forget (recent_object.mp hv), hfield]
      | collection c =>
          have hcontents := hh.collection (recent_vcollection.mp hv)
          rw [displayWithin, displayWithin, collection_forget (recent_vcollection.mp hv)]
          cases heq : h.collection c.id with
          | items xs =>
              rw [heq] at hcontents
              exact congrArg (itemsText c.kind) (hlist (recent_toList.mpr hcontents))
          | entries m =>
              rw [heq] at hcontents
              exact congrArg entriesText (hpairs hcontents)
      | channel id element =>
          rw [displayWithin, displayWithin, channel_forget (recent_channel.mp hv)]
      | future id kind =>
          rw [displayWithin, displayWithin, future_forget (recent_vfuture.mp hv)]
      | _ =>
          rfl

@[simp] theorem display_forget
    (hh : h.Renewed t) (hv : Recent t v) :
    (h.forget t).display v = h.display v := by
  rw [display, display, depthLimit_forget, displayWithin_forget hh hv]

@[simp] theorem key_forget
    (hh : h.Renewed t) (hv : Recent t v) :
    (h.forget t).key v = h.key v := by
  cases v with
  | object o =>
      rw [key, key, display_forget hh hv]
  | _ =>
      rfl

@[simp] theorem exceptionMessage_forget
    {e : Exception} (hh : h.Renewed t) (he : Recent t e) :
    (h.forget t).exceptionMessage e = h.exceptionMessage e := by
  obtain ⟨v, span⟩ := e
  cases v with
  | object o =>
      rw [exceptionMessage, exceptionMessage]
      simp only [field?_forget (recent_object.mp he)]
      split
      · next m heq =>
          exact display_forget hh (hh.field? he _ m heq)
      · exact display_forget hh he
  | _ =>
      exact display_forget hh he

/-! ### Equality -/

theorem allPairs_congr
    {test test' : Value → Value → Bool} {as bs : List Value} (has : Recent t as)
    (hbs : Recent t bs) (htest : ∀ a b, Recent t a → Recent t b → test a b = test' a b) :
    allPairs test as bs = allPairs test' as bs := by
  induction as generalizing bs with
  | nil =>
      cases bs with
      | nil =>
          rfl
      | cons b bs =>
          rfl
  | cons a as ih =>
      cases bs with
      | nil =>
          rfl
      | cons b bs =>
          obtain ⟨ha, has⟩ := recent_cons.mp has
          obtain ⟨hb, hbs⟩ := recent_cons.mp hbs
          rw [allPairs, allPairs, htest a b ha hb, ih has hbs]

theorem equalsWithin_forget
    {a b : Value} (hh : h.Renewed t) (ha : Recent t a) (hb : Recent t b) :
    (h.forget t).equalsWithin n a b = h.equalsWithin n a b := by
  induction n generalizing a b with
  | zero =>
      rfl
  | succ n ih =>
      unfold equalsWithin
      split <;> try rfl
      · next i j =>
          have hi : Recent t (h.array i).toList := recent_toList.mpr (hh.array ha)
          have hj : Recent t (h.array j).toList := recent_toList.mpr (hh.array hb)
          rw [array_forget (recent_varray.mp ha), array_forget (recent_varray.mp hb),
            allPairs_congr hi hj fun a b => ih]
      · next a b =>
          simp only [field?_forget (recent_object.mp ha), field?_forget (recent_object.mp hb)]
          refine congrArg (fun p => a.id == b.id || (a.cls.kind == .record &&
            a.cls.id == b.cls.id && p)) (List.all_congr rfl fun c => ?_)
          split
          · next x y hx hy =>
              exact ih (hh.field? ha _ x hx) (hh.field? hb _ y hy)
          · rfl

@[simp] theorem equals_forget
    {a b : Value} (hh : h.Renewed t) (ha : Recent t a) (hb : Recent t b) :
    (h.forget t).equals a b = h.equals a b := by
  rw [equals, equals, depthLimit_forget, equalsWithin_forget hh ha hb]

/-! ### Types -/

/-- Whether lists of values are recent. -/
theorem Renewed.elementsByArg
    {slots : List (List Value)} (hh : h.Renewed t) (hv : Recent t v)
    (hslots : h.elementsByArg v = some slots) :
    Recent t slots := by
  cases v with
  | array id =>
      cases hslots
      simpa using hh.array hv
  | map id =>
      cases hslots
      simpa using ⟨KeyedMap.recent_keys (hh.map hv), KeyedMap.recent_values (hh.map hv)⟩
  | collection c =>
      have hcontents := hh.collection (recent_vcollection.mp hv)
      rw [Heap.elementsByArg] at hslots
      split at hslots
      · next xs heq =>
          cases hslots
          rw [heq] at hcontents
          simpa using hcontents
      · next m heq =>
          cases hslots
          rw [heq] at hcontents
          simpa using ⟨KeyedMap.recent_keys hcontents, KeyedMap.recent_values hcontents⟩
  | _ =>
      cases hslots

theorem elementsByArg_forget
    (hv : Recent t v) :
    (h.forget t).elementsByArg v = h.elementsByArg v := by
  cases v with
  | array id =>
      rw [elementsByArg, elementsByArg, array_forget (recent_varray.mp hv)]
  | map id =>
      rw [elementsByArg, elementsByArg, map_forget (recent_vmap.mp hv)]
  | collection c =>
      rw [elementsByArg, elementsByArg, collection_forget (recent_vcollection.mp hv)]
  | _ =>
      rfl

theorem runtimeTypeWithin_forget
    (hh : h.Renewed t) (hv : Recent t v) :
    (h.forget t).runtimeTypeWithin n v = h.runtimeTypeWithin n v := by
  induction n generalizing v with
  | zero =>
      rfl
  | succ n ih =>
      cases v with
      | collection c =>
          rw [runtimeTypeWithin, runtimeTypeWithin, elementsByArg_forget hv]
          split
          · rfl
          · split
            · next slots hslots =>
                have hrecent := hh.elementsByArg hv hslots
                have hsame : slots.mapM (fun slot =>
                      commonType (slot.map ((h.forget t).runtimeTypeWithin n))) =
                    slots.mapM fun slot => commonType (slot.map (h.runtimeTypeWithin n)) := by
                  refine mapM_congr fun slot hslot => ?_
                  rw [List.map_congr_left fun a ha => ih (hrecent slot hslot a ha)]
                rw [hsame]
            · rfl
      | channel id element =>
          cases element with
          | none =>
              rfl
          | some type =>
              rfl
      | _ =>
          rfl

@[simp] theorem runtimeType_forget
    (hh : h.Renewed t) (hv : Recent t v) :
    (h.forget t).runtimeType v = h.runtimeType v := by
  rw [runtimeType, runtimeType, depthLimit_forget, runtimeTypeWithin_forget hh hv]

@[simp] theorem typeName_forget
    (hh : h.Renewed t) (hv : Recent t v) :
    (h.forget t).typeName v = h.typeName v := by
  unfold typeName
  split
  · rw [runtimeType_forget hh hv]
  · rfl
  · rfl
  · rw [runtimeType_forget hh hv]

/-- Values are recent that speak for type arguments, so tests of them agree. -/
theorem namedInstance_forget
    {name : String} {args : List TypeExpr} {test test' : List (List Value) → Bool}
    (hh : h.Renewed t) (hv : Recent t v)
    (htest : ∀ slots, Recent t slots → test slots = test' slots) :
    (h.forget t).namedInstance name args test v = h.namedInstance name args test' v := by
  have hslots : (h.elementsByArg v).map test = (h.elementsByArg v).map test' :=
    Option.map_congr fun slots hslots => htest slots (hh.elementsByArg hv hslots)
  rw [namedInstance, namedInstance, elementsByArg_forget hv, hslots, registry_forget]

mutual

@[simp] theorem instanceOf_forget
    {v : Value} (hh : h.Renewed t) (hv : Recent t v) (type : TypeExpr) :
    (h.forget t).instanceOf v type = h.instanceOf v type := by
  cases type with
  | named name args =>
      rw [instanceOf, instanceOf]
      exact namedInstance_forget hh hv fun slots hslots => slotsMatch_forget hh hslots args
  | union ms =>
      rw [instanceOf, instanceOf]
      exact instanceOfAny_forget hh hv ms
  | wildcard =>
      rw [instanceOf, instanceOf]
  | boundedAbove b =>
      rw [instanceOf, instanceOf]
      exact instanceOf_forget hh hv b
  | boundedBelow b =>
      rw [instanceOf, instanceOf, runtimeType_forget hh hv, registry_forget]

theorem instanceOfAny_forget
    {v : Value} (hh : h.Renewed t) (hv : Recent t v) (types : List TypeExpr) :
    (h.forget t).instanceOfAny v types = h.instanceOfAny v types := by
  cases types with
  | nil =>
      rw [instanceOfAny, instanceOfAny]
  | cons m ms =>
      rw [instanceOfAny, instanceOfAny, instanceOf_forget hh hv m, instanceOfAny_forget hh hv ms]

theorem slotsMatch_forget
    {slots : List (List Value)} (hh : h.Renewed t) (hslots : Recent t slots)
    (types : List TypeExpr) :
    (h.forget t).slotsMatch slots types = h.slotsMatch slots types := by
  cases types with
  | nil =>
      rw [slotsMatch, slotsMatch]
  | cons m ms =>
      cases slots with
      | nil =>
          rw [slotsMatch, slotsMatch]
      | cons slot rest =>
          obtain ⟨hslot, hrest⟩ := recent_cons.mp hslots
          have hall : (slot.all fun v => (h.forget t).instanceOf v m) =
              slot.all fun v => h.instanceOf v m := by
            rw [Bool.eq_iff_iff, List.all_eq_true, List.all_eq_true]
            refine forall₂_congr fun v hv => ?_
            rw [instanceOf_forget hh (hslot v hv) m]
          rw [slotsMatch, slotsMatch, slotsMatch_forget hh hrest ms, hall]

end

@[simp] theorem isKnownType_forget (name : String) :
    (h.forget t).isKnownType name = h.isKnownType name := rfl

theorem plainConforms_forget
    (hh : h.Renewed t) (hv : Recent t v) (name : String) :
    (h.forget t).plainConforms v name = h.plainConforms v name := by
  simp only [plainConforms, instanceOf_forget hh hv]

mutual

theorem fits_forget
    (hh : h.Renewed t) (hv : Recent t v) (type : TypeExpr) :
    (h.forget t).fits v type = h.fits v type := by
  cases type with
  | named name args =>
      rw [fits, fits, plainConforms_forget hh hv, instanceOf_forget hh hv, isKnownType_forget]
  | union ms =>
      rw [fits, fits]
      exact fitsAny_forget hh hv ms
  | _ =>
      rw [fits, fits, instanceOf_forget hh hv]
      all_goals nofun

theorem fitsAny_forget
    (hh : h.Renewed t) (hv : Recent t v) (types : List TypeExpr) :
    (h.forget t).fitsAny v types = h.fitsAny v types := by
  cases types with
  | nil =>
      rw [fitsAny, fitsAny]
  | cons m ms =>
      rw [fitsAny, fitsAny, fits_forget hh hv m, fitsAny_forget hh hv ms]

end

@[simp] theorem conforms_forget
    (hh : h.Renewed t) (hv : Recent t v) (type : TypeExpr) (bs : Bindings) :
    (h.forget t).conforms v type bs = h.conforms v type bs := by
  rw [conforms, conforms, fits_forget hh hv]

@[simp] theorem checkFault?_forget
    (hh : h.Renewed t) (hv : Recent t v) (type : TypeExpr) (bs : Bindings) (what : String) :
    (h.forget t).checkFault? v type bs what = h.checkFault? v type bs what := by
  rw [checkFault?, checkFault?, conforms_forget hh hv, typeName_forget hh hv]

theorem recent_argumentFor
    {vs : List Value} (hvs : Recent t vs) (param : String) (ps : List Param) :
    Recent t (argumentFor param ps vs) := by
  induction ps generalizing vs with
  | nil =>
      rw [argumentFor]
      · exact recent_none
      · nofun
  | cons p ps ih =>
      cases vs with
      | nil =>
          rw [argumentFor]
          · exact recent_none
          · nofun
      | cons v vs =>
          obtain ⟨hv, hvs⟩ := recent_cons.mp hvs
          unfold argumentFor
          exact .ite (recent_some.mpr hv) (ih hvs)

@[simp] theorem typeArgsFrom_forget
    {vs : List Value} (hh : h.Renewed t) (hvs : Recent t vs) (typeParams : List TypeParam)
    (ps : List Param) :
    (h.forget t).typeArgsFrom typeParams ps vs = h.typeArgsFrom typeParams ps vs := by
  refine List.map_congr_left fun p _ => ?_
  split
  · next v hv =>
      rw [runtimeType_forget hh (recent_argumentFor hvs _ _ v hv)]
  · rfl

@[simp] theorem boundFault?_forget
    (ps : List TypeParam) (args : List TypeExpr) :
    (h.forget t).boundFault? ps args = h.boundFault? ps args := by
  induction ps generalizing args with
  | nil =>
      cases args <;> rfl
  | cons p ps ih =>
      cases args with
      | nil =>
          rfl
      | cons a as =>
          rw [boundFault?, boundFault?, ih, registry_forget]

end Heap

end Reading
end ScriptEngine
