import ScriptEngine.Builtin.Maps
import ScriptEngine.Proofs.Evaluation.Ascent
import ScriptEngine.Proofs.Stores.Lookups

/-!
# What has come up since a moment

Whatever has an identity is known by a number, and numbers are given out one after another.  So an
`Epoch`, a moment in the life of a heap, is known by how many `Numbers` of each kind have been given
out by then, and what has come up since has greater numbers.

`Recent t a` says that `a` mentions nothing but what has come up since: a value and the class that
it carries, the scopes that a function sees, a list, the completion of a statement.
-/

namespace ScriptEngine

/-- How many numbers of each kind have been given out. -/
structure Numbers where
  scopes : Nat
  arrays : Nat
  maps : Nat
  objects : Nat
  collections : Nat
  channels : Nat
  wakers : Nat
  futures : Nat
  threads : Nat
  statics : Nat

/-- A moment, by how many numbers of each kind have been given out and how much has been told. -/
structure Epoch extends Numbers where
  events : Nat
  /-- How many types have been declared. -/
  declared : Nat

/-- What may mention things that have numbers. -/
class Dated (α : Type) where
  /-- Whether all that is mentioned has come up since an epoch. -/
  recent : Epoch → α → Prop

/-- All that is mentioned has come up since an epoch. -/
def Recent {α : Type} [Dated α] (t : Epoch) (a : α) : Prop := Dated.recent t a

/-! ### Containers -/

namespace Dated

variable {α β : Type}

/-- What mentions nothing. -/
@[reducible] def timeless : Dated α := ⟨fun _ _ => True⟩

instance : Dated Unit := timeless
instance : Dated Bool := timeless
instance : Dated String := timeless
instance : Dated Cause := timeless

/-- Scopes that code sees. -/
instance : Dated Env := ⟨fun t env => ∀ id ∈ env, t.scopes ≤ id⟩

instance [Dated α] : Dated (Option α) := ⟨fun t o => ∀ a, o = some a → Recent t a⟩
instance [Dated α] : Dated (List α) := ⟨fun t as => ∀ a ∈ as, Recent t a⟩
instance [Dated α] : Dated (Array α) := ⟨fun t as => ∀ a ∈ as, Recent t a⟩
instance [Dated α] [Dated β] : Dated (α × β) := ⟨fun t p => Recent t p.1 ∧ Recent t p.2⟩

instance [Dated α] [Dated β] : Dated (Except α β) where
  recent t
    | .error a => Recent t a
    | .ok b => Recent t b

/-- What something was before does not count. -/
instance [Dated α] : Dated (Traced α) := ⟨fun t a => Recent t a.now⟩

/-- What names stand for. -/
instance [Dated α] : Dated (Assoc α) := ⟨fun t m => ∀ e ∈ m.entries, Recent t e.2⟩

end Dated

section Containers

variable {α β : Type} [Dated α] [Dated β] {t : Epoch}

@[simp] theorem recent_unit (u : Unit) : Recent t u := trivial
@[simp] theorem recent_bool (b : Bool) : Recent t b := trivial
@[simp] theorem recent_string (s : String) : Recent t s := trivial
@[simp] theorem recent_cause (c : Cause) : Recent t c := trivial

theorem recent_env {env : Env} : Recent t env ↔ ∀ id ∈ env, t.scopes ≤ id := Iff.rfl

@[simp] theorem recent_env_nil : Recent t ([] : Env) := by
  simp [recent_env]

@[simp] theorem recent_env_cons {id : ScopeId} {env : Env} :
    Recent t (id :: env : Env) ↔ t.scopes ≤ id ∧ Recent t env := by
  simp [recent_env]

@[simp] theorem recent_none : Recent t (none : Option α) := nofun

@[simp] theorem recent_some {a : α} : Recent t (some a) ↔ Recent t a := by
  constructor
  · exact fun h => h a rfl
  · rintro h _ ⟨⟩
    exact h

@[simp] theorem recent_error {a : α} : Recent t (.error a : Except α β) ↔ Recent t a := Iff.rfl
@[simp] theorem recent_ok {b : β} : Recent t (.ok b : Except α β) ↔ Recent t b := Iff.rfl

@[simp] theorem recent_pair {p : α × β} : Recent t p ↔ Recent t p.1 ∧ Recent t p.2 := Iff.rfl

theorem recent_list {as : List α} : Recent t as ↔ ∀ a ∈ as, Recent t a := Iff.rfl

@[simp] theorem recent_nil : Recent t ([] : List α) := by
  simp [recent_list]

@[simp] theorem recent_cons {a : α} {as : List α} :
    Recent t (a :: as) ↔ Recent t a ∧ Recent t as := by
  simp [recent_list]

@[simp] theorem recent_append {as bs : List α} :
    Recent t (as ++ bs) ↔ Recent t as ∧ Recent t bs := by
  simp [recent_list, or_imp, forall_and]

@[simp] theorem recent_reverse {as : List α} : Recent t as.reverse ↔ Recent t as := by
  simp [recent_list]

theorem recent_array {as : Array α} : Recent t as ↔ ∀ a ∈ as, Recent t a := Iff.rfl

@[simp] theorem recent_array_empty : Recent t (#[] : Array α) := by
  simp [recent_array]

@[simp] theorem recent_toList {as : Array α} : Recent t as.toList ↔ Recent t as := by
  simp [recent_list, recent_array]

@[simp] theorem recent_toArray {as : List α} : Recent t as.toArray ↔ Recent t as := by
  simp [recent_list, recent_array]

@[simp] theorem recent_array_append {as bs : Array α} :
    Recent t (as ++ bs) ↔ Recent t as ∧ Recent t bs := by
  simp [recent_array, or_imp, forall_and]

@[simp] theorem recent_array_push {as : Array α} {a : α} :
    Recent t (as.push a) ↔ Recent t as ∧ Recent t a := by
  simp [recent_array, or_imp, forall_and]

namespace Recent

theorem of_subset
    {as bs : List α} (hbs : Recent t bs) (h : as ⊆ bs) :
    Recent t as := by
  exact fun a ha => hbs a (h ha)

theorem of_array_subset
    {as bs : Array α} (hbs : Recent t bs) (h : ∀ a ∈ as, a ∈ bs) :
    Recent t as := by
  exact fun a ha => hbs a (h a ha)

theorem ite
    {p : Prop} [Decidable p] {a b : α} (ha : Recent t a) (hb : Recent t b) :
    Recent t (if p then a else b) := by
  split
  · exact ha
  · exact hb

theorem getD
    {o : Option α} {a : α} (ho : Recent t o) (ha : Recent t a) :
    Recent t (o.getD a) := by
  cases o with
  | none =>
      exact ha
  | some b =>
      exact ho b rfl

theorem list_getD
    {as : List α} {a : α} (has : Recent t as) (ha : Recent t a) (i : Nat) :
    Recent t (as.getD i a) := by
  rw [List.getD_eq_getElem?_getD]
  refine getD (fun b hb => ?_) ha
  exact has b (List.mem_of_getElem? hb)

theorem array_getD
    {as : Array α} {a : α} (has : Recent t as) (ha : Recent t a) (i : Nat) :
    Recent t (as.getD i a) := by
  rw [Array.getD_eq_getD_getElem?]
  refine getD (fun b hb => ?_) ha
  exact has b (Array.mem_of_getElem? hb)

theorem map_some
    {ι : Type} {o : Option ι} {f : ι → α} (h : ∀ i, o = some i → Recent t (f i)) :
    Recent t (o.map f) := by
  intro a ha
  obtain ⟨b, hb, rfl⟩ := Option.map_eq_some_iff.mp ha
  exact h b hb

theorem map_list
    {ι : Type} {as : List ι} {f : ι → α} (h : ∀ i ∈ as, Recent t (f i)) :
    Recent t (as.map f) := by
  intro a ha
  obtain ⟨i, hi, rfl⟩ := List.mem_map.mp ha
  exact h i hi

theorem setIfInBounds
    {as : Array α} {a : α} (has : Recent t as) (ha : Recent t a) (i : Nat) :
    Recent t (as.setIfInBounds i a) := by
  intro b hb
  rcases Array.mem_or_eq_of_mem_setIfInBounds hb with hold | rfl
  · exact has b hold
  · exact ha

theorem insertIdxIfInBounds
    {as : Array α} {a : α} (has : Recent t as) (ha : Recent t a) (i : Nat) :
    Recent t (as.insertIdxIfInBounds i a) := by
  intro b hb
  rcases mem_or_eq_of_mem_insert hb with hold | rfl
  · exact has b hold
  · exact ha

theorem eraseIdxIfInBounds
    {as : Array α} (has : Recent t as) (i : Nat) :
    Recent t (as.eraseIdxIfInBounds i) := by
  exact has.of_array_subset fun a ha => mem_of_mem_erase ha

theorem pop
    {as : Array α} (has : Recent t as) :
    Recent t as.pop := by
  refine has.of_array_subset fun a ha => ?_
  rw [← Array.mem_toList_iff, Array.toList_pop] at ha
  exact Array.mem_toList_iff.mp (List.dropLast_subset _ ha)

end Recent

/-! ### Names -/

@[simp] theorem recent_assoc_empty : Recent t (∅ : Assoc α) := by
  intro e he
  cases he

namespace Recent

theorem find?
    {m : Assoc α} (hm : Recent t m) (name : String) :
    Recent t (m.find? name) := by
  intro a ha
  unfold Assoc.find? at ha
  obtain ⟨l, r, heq, -⟩ := List.lookup_eq_some_iff.mp ha
  exact hm (name, a) (by rw [heq]; simp)

theorem erase
    {m : Assoc α} (hm : Recent t m) (name : String) :
    Recent t (m.erase name) := by
  exact fun e he => hm e (List.mem_of_mem_filter he)

theorem insert
    {m : Assoc α} {a : α} (hm : Recent t m) (ha : Recent t a) (name : String) :
    Recent t (m.insert name a) := by
  have hreplace (entries : List (String × α)) (he : ∀ e ∈ entries, Recent t e.2) :
      ∀ e ∈ Assoc.replaceIn name a entries, Recent t e.2 := by
    induction entries with
    | nil =>
        exact he
    | cons e rest ih =>
        obtain ⟨hfirst, hrest⟩ := List.forall_mem_cons.mp he
        rw [Assoc.replaceIn]
        split
        · exact List.forall_mem_cons.mpr ⟨ha, hrest⟩
        · exact List.forall_mem_cons.mpr ⟨hfirst, ih hrest⟩
  unfold Assoc.insert
  split
  · exact hreplace m.entries hm
  · exact List.forall_mem_cons.mpr ⟨ha, hm⟩

/-- Entries are added one after another. -/
theorem insertAll
    {m : Assoc α} {entries : List (String × α)} (hm : Recent t m)
    (he : ∀ e ∈ entries, Recent t e.2) :
    Recent t (entries.foldr (fun e m => m.insert e.1 e.2) m) := by
  induction entries with
  | nil =>
      exact hm
  | cons e rest ih =>
      obtain ⟨hfirst, hrest⟩ := List.forall_mem_cons.mp he
      exact (ih hrest).insert hfirst e.1

end Recent

end Containers

/-! ### Types -/

namespace Dated

instance : Dated Method := ⟨fun t m => Recent t m.closure⟩

/-- An interface mentions all that it reaches. -/
instance : Dated Interface :=
  ⟨fun t i => ∀ j, i.Reaches j → t.statics ≤ j.own.id ∧ Recent t j.own.methods⟩

instance : Dated ClassLayer where
  recent t l :=
    t.statics ≤ l.id ∧ Recent t l.interfaces ∧ Recent t l.methods ∧ Recent t l.staticMethods ∧
      Recent t l.constructors ∧ Recent t l.closure

instance : Dated ClassDef := ⟨fun t c => Recent t c.layers⟩

instance : Dated Registry := ⟨fun t r => Recent t r.classes ∧ Recent t r.interfaces⟩

end Dated

section Types

variable {t : Epoch} {c : ClassDef} {i : Interface}

theorem recent_interface {own : InterfaceLayer} {parents : List Interface} :
    Recent t (.mk own parents : Interface) ↔
      t.statics ≤ own.id ∧ Recent t own.methods ∧ Recent t parents := by
  constructor
  · intro h
    obtain ⟨hid, hmethods⟩ := h _ (.refl _)
    exact ⟨hid, hmethods, fun p hp j hj => h j (.step hp hj)⟩
  · rintro ⟨hid, hmethods, hparents⟩ j hj
    cases hj with
    | refl =>
        exact ⟨hid, hmethods⟩
    | step hp hj =>
        exact hparents _ hp j hj

theorem recent_class : Recent t c ↔ Recent t c.own ∧ Recent t c.ancestors := by
  exact recent_cons

@[simp] theorem recent_registry_empty : Recent t (∅ : Registry) := by
  exact ⟨recent_assoc_empty, recent_assoc_empty⟩

namespace Recent

theorem classId (hc : Recent t c) : t.statics ≤ c.id := (recent_class.mp hc).1.1

theorem own (hc : Recent t c) : Recent t c.own := (recent_class.mp hc).1

theorem classClosure (hc : Recent t c) : Recent t c.own.closure := hc.own.2.2.2.2.2

theorem interfaceId (hi : Recent t i) : t.statics ≤ i.own.id := (hi i (.refl i)).1

theorem reached
    {j : Interface} (hi : Recent t i) (hj : i.Reaches j) :
    Recent t j := by
  exact fun k hk => hi k (hj.trans hk)

theorem withExtended
    (hi : Recent t i) :
    Recent t i.withExtended := by
  intro j hj
  rcases Interface.seen_or_reaches_of_gatherInto [] i j hj with hnil | hreaches
  · cases hnil
  · exact hi.reached hreaches

theorem parent?
    (hc : Recent t c) :
    Recent t c.parent? := by
  intro p hp
  unfold ClassDef.parent? at hp
  split at hp
  · cases hp
  · next l rest heq =>
      cases hp
      have hancestors := (recent_class.mp hc).2
      rw [heq] at hancestors
      exact recent_class.mpr (recent_cons.mp hancestors)

theorem lineage
    (hc : Recent t c) :
    Recent t c.lineage := by
  have hlayers (ls : List ClassLayer) (hls : Recent t ls) : Recent t (ClassDef.fromLayers ls) := by
    induction ls with
    | nil =>
        exact recent_nil
    | cons l rest ih =>
        obtain ⟨hl, hrest⟩ := recent_cons.mp hls
        exact recent_cons.mpr ⟨recent_class.mpr ⟨hl, hrest⟩, ih hrest⟩
  exact recent_cons.mpr ⟨hc, hlayers _ (recent_class.mp hc).2⟩

theorem bodiesNamed
    {ms : List Method} (hms : Recent t ms) (name : String) :
    Recent t (bodiesNamed ms name) := by
  refine hms.of_subset fun m hm => ?_
  exact (List.mem_filter.mp (List.mem_filter.mp hm).1).1

theorem usableMethods
    (hc : Recent t c) (name : String) :
    Recent t (c.usableMethods name) := by
  refine recent_append.mpr ⟨fun m hm => ?_, fun m hm => ?_⟩
  · obtain ⟨l, hl, hm⟩ := List.mem_flatMap.mp hm
    exact bodiesNamed (hc l hl).2.2.1 name m hm
  · obtain ⟨j, hj, hm⟩ := List.mem_flatMap.mp hm
    obtain ⟨l, hl, k, hk, hreaches⟩ := ClassDef.reaches_of_mem_implementedInterfaces hj
    exact bodiesNamed ((hc l hl).2.1 k hk j hreaches).2 name m hm

theorem staticMethodsNamed
    (hc : Recent t c) (name : String) :
    Recent t (c.staticMethodsNamed name) := by
  intro m hm
  obtain ⟨l, hl, hm⟩ := List.mem_flatMap.mp hm
  exact (hc l hl).2.2.2.1 m (List.mem_filter.mp hm).1

theorem effectiveConstructors
    (hc : Recent t c) :
    Recent t c.effectiveConstructors := by
  unfold ClassDef.effectiveConstructors
  refine getD (map_some fun l hl => ?_) recent_nil
  exact (hc l (List.mem_of_find?_eq_some hl)).2.2.2.2.1

/-- The ancestor that a search of the lineage finds. -/
theorem declaring
    {p : ClassDef → Bool} (hc : Recent t c) :
    Recent t ((c.lineage.find? p).getD c) := by
  refine getD (fun d hd => ?_) hc
  exact hc.lineage d (List.mem_of_find?_eq_some hd)

end Recent

end Types

/-! ### Values -/

/-- Which futures a builtin function settles. -/
def Native.recentSince (t : Epoch) : Native → Prop
  | .resolve id | .reject id => t.futures ≤ id
  | _ => True

namespace Dated

instance : Dated Instance := ⟨fun t o => t.objects ≤ o.id ∧ Recent t o.cls⟩
instance : Dated Function := ⟨fun t f => Recent t f.closure⟩
instance : Dated Native := ⟨Native.recentSince⟩
instance : Dated Collection := ⟨fun t c => t.collections ≤ c.id⟩

end Dated

/-- All that a value mentions has come up since an epoch. -/
def Value.recentSince (t : Epoch) : Value → Prop
  | .array id => t.arrays ≤ id
  | .map id => t.maps ≤ id
  | .function _ f => Recent t f
  | .native f => Recent t f
  | .instanceMethod _ o c _ => Recent t o ∧ Recent t c
  | .staticMethod _ c _ => Recent t c
  | .builtinMethod _ v _ => v.recentSince t
  | .classDef c => Recent t c
  | .interfaceDef i => Recent t i
  | .object o => Recent t o
  | .collection c => Recent t c
  | .thread id => t.threads ≤ id
  | .channel id _ => t.channels ≤ id
  | .future id _ => t.futures ≤ id
  | .nil | .bool _ | .int _ | .float _ | .str _ | .module _ => True

namespace Dated

instance : Dated Value := ⟨Value.recentSince⟩
instance : Dated Receiver := ⟨fun t r => Recent t r.this ∧ Recent t r.cls⟩
instance : Dated Binding := ⟨fun t b => Recent t b.value⟩
instance : Dated Deferred := ⟨fun t d => Recent t d.env⟩
instance : Dated Frame := ⟨fun t f => Recent t f.receiver ∧ Recent t f.defers⟩
instance : Dated Scope := ⟨fun t s => Recent t s.vars ∧ Recent t s.frame⟩
instance : Dated KeyedMap := ⟨fun t m => Recent t m.entries⟩
instance : Dated Exception := ⟨fun t e => Recent t e.value⟩

instance : Dated Signal where
  recent t
    | .thrown e => Recent t e
    | .fault _ => True

instance : Dated Flow where
  recent t
    | .value v | .ret v => Recent t v
    | .stop | .next => True

instance : Dated Outcome where
  recent t
    | .returned v => Recent t v
    | .thrown e => Recent t e
    | .faulted _ => True

instance : Dated Settlement where
  recent t
    | .fulfilled v => Recent t v
    | .rejected e => Recent t e
    | .pending | .cancelled => True

instance : Dated StaticField := ⟨fun t s => Recent t s.value⟩
instance : Dated Statics := ⟨fun t s => Recent t s.slots ∧ Recent t s.constants⟩
instance : Dated ObjectState := ⟨fun t s => Recent t s.fields⟩

instance : Dated CollectionContents where
  recent t
    | .items xs => Recent t xs
    | .entries m => Recent t m

/-- A channel mentions what is queued and the selects that wait for it. -/
instance : Dated (Channel Value) :=
  ⟨fun t c => Recent t c.queue ∧ ∀ w ∈ c.watchers, t.wakers ≤ w⟩

instance : Dated Channel.Arm := ⟨fun t a => t.channels ≤ a.channel⟩

instance : Dated (Channel.Selected Value) where
  recent t
    | .received _ v => Recent t v
    | .closed _ | .exhausted => True

instance : Dated Continuation := ⟨fun t k => Recent t k.callback ∧ t.futures ≤ k.target⟩
instance : Dated (Future Continuation) := ⟨fun t f => Recent t f.settlement ∧ Recent t f.waiting⟩

instance : Dated Job where
  recent t
    | .thread id _ env => t.threads ≤ id ∧ Recent t env
    | .async body target => Recent t body ∧ t.futures ≤ target
    | .continuation k settled => Recent t k ∧ Recent t settled

instance : Dated Blocker where
  recent t
    | .room c | .message c => t.channels ≤ c
    | .waker w => t.wakers ≤ w
    | .thread id => t.threads ≤ id
    | .future id | .futureUntil id _ => t.futures ≤ id
    | .turn | .time _ => True

instance : Dated Builtin.MapAnswer where
  recent t
    | .value v => Recent t v
    | .items vs => Recent t vs
    | .pairs es => Recent t es

end Dated

section Values

variable {t : Epoch}

@[simp] theorem recent_vnil : Recent t Value.nil := trivial
@[simp] theorem recent_vbool {b : Bool} : Recent t (.bool b : Value) := trivial
@[simp] theorem recent_vint {i : Int64} : Recent t (.int i : Value) := trivial
@[simp] theorem recent_vfloat {x : Decimal.Double} : Recent t (.float x : Value) := trivial
@[simp] theorem recent_vstr {s : String} : Recent t (.str s : Value) := trivial
@[simp] theorem recent_vmodule {m : Module} : Recent t (.module m : Value) := trivial
@[simp] theorem recent_varray {id : Nat} : Recent t (.array id : Value) ↔ t.arrays ≤ id := Iff.rfl
@[simp] theorem recent_vmap {id : Nat} : Recent t (.map id : Value) ↔ t.maps ≤ id := Iff.rfl
@[simp] theorem recent_object {o : Instance} : Recent t (.object o : Value) ↔ Recent t o := Iff.rfl

@[simp] theorem recent_vclass {c : ClassDef} :
    Recent t (.classDef c : Value) ↔ Recent t c := Iff.rfl

@[simp] theorem recent_vnative {f : Native} : Recent t (.native f : Value) ↔ Recent t f := Iff.rfl

@[simp] theorem recent_instanceMethod {id : Nat} {o : Instance} {c : ClassDef} {name : String} :
    Recent t (.instanceMethod id o c name : Value) ↔ Recent t o ∧ Recent t c := Iff.rfl

@[simp] theorem recent_staticMethod {id : Nat} {c : ClassDef} {name : String} :
    Recent t (.staticMethod id c name : Value) ↔ Recent t c := Iff.rfl

@[simp] theorem recent_builtinMethod {id : Nat} {v : Value} {name : String} :
    Recent t (.builtinMethod id v name : Value) ↔ Recent t v := Iff.rfl

@[simp] theorem recent_vcollection {c : Collection} :
    Recent t (.collection c : Value) ↔ Recent t c := Iff.rfl

@[simp] theorem recent_channel {id : Nat} {element : Option TypeExpr} :
    Recent t (.channel id element : Value) ↔ t.channels ≤ id := Iff.rfl

@[simp] theorem recent_vfuture {id : Nat} {kind : FutureKind} :
    Recent t (.future id kind : Value) ↔ t.futures ≤ id := Iff.rfl

@[simp] theorem recent_flow_ret {v : Value} : Recent t (Flow.ret v) ↔ Recent t v := Iff.rfl
@[simp] theorem recent_flow_stop : Recent t Flow.stop := trivial
@[simp] theorem recent_flow_next : Recent t Flow.next := trivial
@[simp] theorem recent_fault {f : Fault} : Recent t (Signal.fault f) := trivial

@[simp] theorem recent_faulted {f : Fault} : Recent t (Outcome.faulted f) := trivial

@[simp] theorem recent_fulfilled {v : Value} :
    Recent t (Settlement.fulfilled v) ↔ Recent t v := Iff.rfl

@[simp] theorem recent_rejected {e : Exception} :
    Recent t (Settlement.rejected e) ↔ Recent t e := Iff.rfl

@[simp] theorem recent_pending : Recent t Settlement.pending := trivial
@[simp] theorem recent_cancelled : Recent t Settlement.cancelled := trivial

@[simp] theorem recent_items {xs : Array Value} :
    Recent t (CollectionContents.items xs) ↔ Recent t xs := Iff.rfl

@[simp] theorem recent_future {f : Future Continuation} :
    Recent t f ↔ Recent t f.settlement ∧ Recent t f.waiting := Iff.rfl

@[simp] theorem recent_receiveArm {c : Nat} :
    Recent t (Channel.Arm.receive c) ↔ t.channels ≤ c := Iff.rfl

@[simp] theorem recent_closedArm {c : Nat} :
    Recent t (Channel.Arm.closed c) ↔ t.channels ≤ c := Iff.rfl

@[simp] theorem recent_waitRoom {c : Nat} : Recent t (Blocker.room c) ↔ t.channels ≤ c := Iff.rfl

@[simp] theorem recent_waitMessage {c : Nat} :
    Recent t (Blocker.message c) ↔ t.channels ≤ c := Iff.rfl

@[simp] theorem recent_waitWaker {w : Nat} : Recent t (Blocker.waker w) ↔ t.wakers ≤ w := Iff.rfl

@[simp] theorem recent_waitThread {id : Nat} :
    Recent t (Blocker.thread id) ↔ t.threads ≤ id := Iff.rfl

@[simp] theorem recent_waitFuture {id : Nat} :
    Recent t (Blocker.future id) ↔ t.futures ≤ id := Iff.rfl

@[simp] theorem recent_waitUntil {id time : Nat} :
    Recent t (Blocker.futureUntil id time) ↔ t.futures ≤ id := Iff.rfl

@[simp] theorem recent_waitTime {time : Nat} : Recent t (Blocker.time time) := trivial

@[simp] theorem recent_answer_value {v : Value} :
    Recent t (Builtin.MapAnswer.value v) ↔ Recent t v := Iff.rfl

@[simp] theorem recent_answer_items {vs : List Value} :
    Recent t (Builtin.MapAnswer.items vs) ↔ Recent t vs := Iff.rfl

@[simp] theorem recent_answer_pairs {es : List (Value × Value)} :
    Recent t (Builtin.MapAnswer.pairs es) ↔ Recent t es := Iff.rfl

/-- A number of things mentions nothing. -/
@[simp] theorem recent_count (n : Nat) : Recent t (Builtin.count n) := trivial

theorem recent_argument
    {args : List Value} (hargs : Recent t args) (i : Nat) :
    Recent t (Builtin.argument args i) := by
  exact hargs.list_getD recent_vnil i

end Values

/-! ### Maps -/

namespace KeyedMap

variable {t : Epoch} {m : KeyedMap}

theorem recent_iff : Recent t m ↔ ∀ e ∈ m.entries, Recent t e.1 ∧ Recent t e.2 := Iff.rfl

@[simp] theorem recent_empty : Recent t KeyedMap.empty := by
  simp [recent_iff, empty]

theorem recent_get?
    (hm : Recent t m) (k : KeyImage) :
    Recent t (m.get? k) := by
  intro v hv
  obtain ⟨slot, -, hslot⟩ := Option.bind_eq_some_iff.mp hv
  obtain ⟨e, he, rfl⟩ := Option.map_eq_some_iff.mp hslot
  exact (hm e (Array.mem_of_getElem? he)).2

theorem recent_insert
    {k : KeyImage} {key v : Value} (hm : Recent t m) (hkey : Recent t key) (hv : Recent t v) :
    Recent t (m.insert k key v).2 := by
  rw [insert]
  split
  · intro e he
    obtain ⟨i, hi⟩ := Array.mem_iff_getElem?.mp he
    rw [Array.getElem?_modify] at hi
    split at hi
    · obtain ⟨e', he', rfl⟩ := Option.map_eq_some_iff.mp hi
      exact ⟨(hm e' (Array.mem_of_getElem? he')).1, hv⟩
    · exact hm e (Array.mem_of_getElem? hi)
  · exact recent_array_push.mpr ⟨hm, hkey, hv⟩

theorem recent_erase
    (hm : Recent t m) (k : KeyImage) :
    Recent t (m.erase k).2 := by
  exact fun e he => hm e (mem_entries_erase he)

theorem recent_keys
    (hm : Recent t m) :
    Recent t m.keys := by
  exact Recent.map_list fun e he => (hm e (Array.mem_toList_iff.mp he)).1

theorem recent_values
    (hm : Recent t m) :
    Recent t m.values := by
  exact Recent.map_list fun e he => (hm e (Array.mem_toList_iff.mp he)).2

end KeyedMap
end ScriptEngine
