import Mathlib.Data.Set.Lattice
import ScriptEngine.Proofs.Evaluation.Threads
import ScriptEngine.Proofs.Registry.Reach

/-!
# What values stand for

An instance, a collection and a channel are known by a number, and the value that stands for one
also tells what never changes of it: its class and its type arguments.  The heap holds only what
does change.  So what a program may count on is in its values, wherever they are held.

**Facts.** A `World` is a set of `Fact`s: which instances, collections, channels, interfaces and classes
there are, and on what the code of a frame runs.  A class tells of itself and of the interfaces in its
reach, and an instance tells what its class tells.

**Inventory.** `carried` collects the facts that a value tells, or anything that holds values: a list,
the completion of a statement, a scope, the whole heap.  A world `Knows` what carries no other facts
than its own.
-/

namespace ScriptEngine

/-- What is the case in a program from some moment on. -/
inductive Fact
  | object (o : Instance)
  | collection (c : Collection)
  | channel (id : Nat) (element : Option TypeExpr)
  | interface (i : Interface)
  | cls (c : ClassDef)
  /-- The code of the frame of a scope runs on some receiver. -/
  | frame (id : ScopeId) (r : Receiver)

/-- The facts of a moment. -/
abbrev World := Set Fact

/-- What holds values tells facts. -/
class Carrier (α : Type) where
  /-- The facts that are told. -/
  carried : α → World

export Carrier (carried)

/-- Whether a world has all the facts that are told. -/
def Knows {α : Type} [Carrier α] (w : World) (a : α) : Prop := carried a ⊆ w

namespace Knows

variable {α : Type} [Carrier α] {w w' : World} {a : α}

theorem mono
    (ha : Knows w a) (hw : w ⊆ w') :
    Knows w' a := by
  exact ha.trans hw

@[simp] theorem self
    (w : World) (a : α) :
    Knows (w ∪ carried a) a := by
  exact Set.subset_union_right

/-- What is known stays known when more is. -/
@[simp] theorem more
    (ha : Knows w a) (w' : World) :
    Knows (w ∪ w') a := by
  exact ha.mono Set.subset_union_left

/-- Three steps at once: a chain of `more` is too deep for the simplifier. -/
@[simp] theorem more₃
    (ha : Knows w a) (u₁ u₂ u₃ : World) :
    Knows (w ∪ u₁ ∪ u₂ ∪ u₃) a := by
  exact ((ha.more u₁).more u₂).more u₃

end Knows

/-! ### Containers -/

namespace Carrier

variable {α β : Type}

/-- What holds no values tells nothing. -/
@[reducible] def nothing : Carrier α := ⟨fun _ => ∅⟩

instance : Carrier Unit := nothing
instance : Carrier PUnit := nothing
instance : Carrier Bool := nothing
instance : Carrier Nat := nothing
instance : Carrier String := nothing
instance : Carrier Int64 := nothing
instance : Carrier Ordering := nothing
instance : Carrier Decimal.Double := nothing
instance : Carrier Cause := nothing
instance : Carrier TypeExpr := nothing
instance : Carrier Method := nothing
instance : Carrier Channel.Arm := nothing
instance : Carrier Stmt := nothing
instance : Carrier Deferred := nothing

/-- An interface tells of all in its reach. -/
instance : Carrier Interface := ⟨fun i => {f | ∃ j, i.Reaches j ∧ f = .interface j}⟩

instance : Carrier ClassDef := ⟨fun c => insert (.cls c) {f | ∃ j, c.Reaches j ∧ f = .interface j}⟩

instance : Carrier TypeDef where
  carried
    | .cls c => carried c
    | .interface i => carried i

instance [Carrier α] : Carrier (Option α) where
  carried
    | some a => carried a
    | none => ∅

instance [Carrier α] : Carrier (List α) where
  carried as := {f | ∃ a ∈ as, f ∈ carried a}

instance [Carrier α] : Carrier (Array α) where
  carried as := carried as.toList

instance [Carrier α] [Carrier β] : Carrier (α × β) where
  carried p := carried p.1 ∪ carried p.2

instance [Carrier α] [Carrier β] : Carrier (α ⊕ β) where
  carried
    | .inl a => carried a
    | .inr b => carried b

instance [Carrier α] [Carrier β] : Carrier (Except α β) where
  carried
    | .error a => carried a
    | .ok b => carried b

/-- What something was is not told any more. -/
instance [Carrier α] : Carrier (Traced α) := ⟨fun t => carried t.now⟩

/-- Of names that stand for something what they stand for is told. -/
instance [Carrier α] : Carrier (Assoc α) where
  carried m := {f | ∃ name a, m.find? name = some a ∧ f ∈ carried a}

/-- Both tables of a registry are told. -/
instance : Carrier Registry := ⟨fun r => carried r.classes ∪ carried r.interfaces⟩

end Carrier

section Containers

variable {α β : Type} [Carrier α] [Carrier β] {w : World}

@[simp] theorem knows_unit (u : Unit) : Knows w u := Set.empty_subset w
@[simp] theorem knows_bool (b : Bool) : Knows w b := Set.empty_subset w
@[simp] theorem knows_nat (n : Nat) : Knows w n := Set.empty_subset w
@[simp] theorem knows_string (s : String) : Knows w s := Set.empty_subset w
@[simp] theorem knows_int (i : Int64) : Knows w i := Set.empty_subset w
@[simp] theorem knows_ordering (o : Ordering) : Knows w o := Set.empty_subset w
@[simp] theorem knows_double (x : Decimal.Double) : Knows w x := Set.empty_subset w
@[simp] theorem knows_cause (c : Cause) : Knows w c := Set.empty_subset w
@[simp] theorem knows_type (t : TypeExpr) : Knows w t := Set.empty_subset w
@[simp] theorem knows_method (m : Method) : Knows w m := Set.empty_subset w
@[simp] theorem knows_arm (a : Channel.Arm) : Knows w a := Set.empty_subset w
@[simp] theorem knows_stmt (s : Stmt) : Knows w s := Set.empty_subset w
@[simp] theorem knows_deferred (d : Deferred) : Knows w d := Set.empty_subset w

@[simp] theorem knows_none : Knows w (none : Option α) := Set.empty_subset w
@[simp] theorem knows_some {a : α} : Knows w (some a) ↔ Knows w a := Iff.rfl
@[simp] theorem knows_inl {a : α} : Knows w (.inl a : α ⊕ β) ↔ Knows w a := Iff.rfl
@[simp] theorem knows_inr {b : β} : Knows w (.inr b : α ⊕ β) ↔ Knows w b := Iff.rfl
@[simp] theorem knows_error {a : α} : Knows w (.error a : Except α β) ↔ Knows w a := Iff.rfl
@[simp] theorem knows_ok {b : β} : Knows w (.ok b : Except α β) ↔ Knows w b := Iff.rfl

@[simp] theorem knows_pair {p : α × β} : Knows w p ↔ Knows w p.1 ∧ Knows w p.2 := by
  exact Set.union_subset_iff

theorem knows_list {as : List α} : Knows w as ↔ ∀ a ∈ as, Knows w a := by
  constructor
  · intro has a ha f hf
    exact has ⟨a, ha, hf⟩
  · rintro has f ⟨a, ha, hf⟩
    exact has a ha hf

@[simp] theorem knows_traced {t : Traced α} : Knows w t ↔ Knows w t.now := Iff.rfl

@[simp] theorem knows_nil : Knows w ([] : List α) := by
  simp [knows_list]

@[simp] theorem knows_cons {a : α} {as : List α} :
    Knows w (a :: as) ↔ Knows w a ∧ Knows w as := by
  simp [knows_list]

@[simp] theorem knows_append {as bs : List α} :
    Knows w (as ++ bs) ↔ Knows w as ∧ Knows w bs := by
  simp [knows_list, or_imp, forall_and]

theorem Knows.of_mem {a : α} {as : List α} (has : Knows w as) (ha : a ∈ as) : Knows w a := by
  exact knows_list.mp has a ha

theorem Knows.of_subset {as l : List α} (hl : Knows w l) (h : as ⊆ l) : Knows w as := by
  exact knows_list.mpr fun a ha => hl.of_mem (h ha)

theorem knows_array {as : Array α} : Knows w as ↔ ∀ a ∈ as, Knows w a := by
  rw [show Knows w as ↔ Knows w as.toList from Iff.rfl, knows_list]
  simp

theorem knows_toList {as : Array α} : Knows w as.toList ↔ Knows w as := Iff.rfl

theorem knows_toArray {as : List α} : Knows w as.toArray ↔ Knows w as := Iff.rfl

theorem Knows.of_mem_array {a : α} {l : Array α} (hl : Knows w l) (ha : a ∈ l) : Knows w a := by
  exact knows_array.mp hl a ha

theorem knows_assoc {m : Assoc α} :
    Knows w m ↔ ∀ name a, m.find? name = some a → Knows w a := by
  constructor
  · intro hm name a ha f hf
    exact hm ⟨name, a, ha, hf⟩
  · rintro hm f ⟨name, a, ha, hf⟩
    exact hm name a ha hf

@[simp] theorem knows_assoc_empty : Knows w (∅ : Assoc α) := by
  refine knows_assoc.mpr fun name a ha => ?_
  cases ha

theorem Knows.insert {m : Assoc α} {name : String} {a : α} (hm : Knows w m) (ha : Knows w a) :
    Knows w (m.insert name a) := by
  refine knows_assoc.mpr fun other b hb => ?_
  rw [Assoc.find?_insert] at hb
  split at hb
  · cases hb
    exact ha
  · exact knows_assoc.mp hm other b hb

theorem Knows.erase {m : Assoc α} (hm : Knows w m) (name : String) : Knows w (m.erase name) := by
  refine knows_assoc.mpr fun other b hb => ?_
  rw [Assoc.find?_erase] at hb
  split at hb
  · cases hb
  · exact knows_assoc.mp hm other b hb

theorem Knows.find? {m : Assoc α} (hm : Knows w m) (name : String) : Knows w (m.find? name) := by
  cases hfind : m.find? name with
  | none =>
      exact knows_none
  | some a =>
      exact knows_assoc.mp hm name a hfind

theorem Knows.getD {o : Option α} {a : α} (ho : Knows w o) (ha : Knows w a) :
    Knows w (o.getD a) := by
  cases o with
  | none =>
      exact ha
  | some b =>
      exact ho

theorem Knows.array_getD {l : Array α} {d : α} (hl : Knows w l) (hd : Knows w d) (i : Nat) :
    Knows w (l.getD i d) := by
  rw [Array.getD_eq_getD_getElem?]
  refine Knows.getD ?_ hd
  cases hget : l[i]? with
  | none =>
      exact knows_none
  | some a =>
      exact hl.of_mem_array (Array.mem_of_getElem? hget)

end Containers

/-! ### Types -/

section Types

variable {w : World}

theorem knows_interface {i : Interface} : Knows w i ↔ ∀ j, i.Reaches j → .interface j ∈ w := by
  constructor
  · exact fun hi j hj => hi ⟨j, hj, rfl⟩
  · rintro hi _ ⟨j, hj, rfl⟩
    exact hi j hj

theorem knows_class {c : ClassDef} :
    Knows w c ↔ .cls c ∈ w ∧ ∀ j, c.Reaches j → .interface j ∈ w := by
  refine Set.insert_subset_iff.trans (and_congr_right fun _ => ⟨?_, ?_⟩)
  · exact fun hc j hj => hc ⟨j, hj, rfl⟩
  · rintro hc _ ⟨j, hj, rfl⟩
    exact hc j hj

theorem knows_registry {r : Registry} :
    Knows w r ↔ Knows w r.classes ∧ Knows w r.interfaces := by
  exact Set.union_subset_iff

@[simp] theorem knows_registry_empty : Knows w (∅ : Registry) := by
  exact knows_registry.mpr ⟨knows_assoc_empty, knows_assoc_empty⟩

theorem Knows.put {r : Registry} {t : TypeDef} (hr : Knows w r) (ht : Knows w t) :
    Knows w (r.put t) := by
  obtain ⟨hclasses, hinterfaces⟩ := knows_registry.mp hr
  cases t with
  | cls c =>
      exact knows_registry.mpr ⟨hclasses.insert ht, hinterfaces.erase c.name⟩
  | interface i =>
      exact knows_registry.mpr ⟨hclasses.erase i.name, hinterfaces.insert ht⟩

theorem Knows.registered {r : Registry} {name : String} {t : TypeDef} (hr : Knows w r)
    (ht : r.find? name = some t) :
    Knows w t := by
  obtain ⟨hclasses, hinterfaces⟩ := knows_registry.mp hr
  obtain ⟨c, rfl, hc⟩ | ⟨i, rfl, hi⟩ := Registry.cls?_or_interface?_of_find? ht
  · exact knows_assoc.mp hclasses name c hc
  · exact knows_assoc.mp hinterfaces name i hi

theorem Knows.reaches {t : TypeDef} (ht : Knows w t) (j : Interface) (hj : t.Reaches j) :
    .interface j ∈ w := by
  cases t with
  | cls c =>
      exact (knows_class.mp ht).2 j hj
  | interface i =>
      exact knows_interface.mp ht j hj

end Types

/-! ### Values and what holds them -/

/-- The facts that a value tells; a bound method tells those of its receiver. -/
def Value.facts : Value → World
  | .object o | .instanceMethod _ o _ _ => insert (.object o) (carried o.cls)
  | .builtinMethod _ receiver _ => receiver.facts
  | .collection c => {.collection c}
  | .channel id element => {.channel id element}
  | .classDef c => carried c
  | .interfaceDef i => carried i
  | _ => ∅

namespace Carrier

instance : Carrier Value := ⟨Value.facts⟩
instance : Carrier Instance := ⟨fun o => insert (.object o) (carried o.cls)⟩
instance : Carrier Collection := ⟨fun c => {.collection c}⟩
instance : Carrier Receiver := ⟨fun r => carried r.this⟩
instance : Carrier Binding := ⟨fun b => carried b.value⟩
instance : Carrier Frame := ⟨fun f => carried f.receiver⟩
instance : Carrier Scope := ⟨fun s => carried s.vars ∪ carried s.frame⟩
instance : Carrier Scopes := ⟨fun s => carried s.items⟩
instance : Carrier KeyedMap := ⟨fun m => carried m.entries⟩
instance : Carrier Exception := ⟨fun e => carried e.value⟩

instance : Carrier Signal where
  carried
    | .thrown e => carried e
    | .fault _ => ∅

instance : Carrier Flow where
  carried
    | .value v | .ret v => carried v
    | .stop | .next => ∅

instance : Carrier Outcome where
  carried
    | .returned v => carried v
    | .thrown e => carried e
    | .faulted _ => ∅

instance : Carrier Settlement where
  carried
    | .fulfilled v => carried v
    | .rejected e => carried e
    | .pending | .cancelled => ∅

instance : Carrier StaticField := ⟨fun s => carried s.value⟩
instance : Carrier Statics := ⟨fun s => carried s.slots ∪ carried s.constants⟩
instance : Carrier ObjectState := ⟨fun s => carried s.fields⟩

instance : Carrier CollectionContents where
  carried
    | .items xs => carried xs
    | .entries m => carried m

instance : Carrier (Channel Value) := ⟨fun c => carried c.queue⟩
instance : Carrier (Hub Value) := ⟨fun u => carried u.channels⟩

instance : Carrier (Channel.Selected Value) where
  carried
    | .received _ v => carried v
    | .closed _ | .exhausted => ∅

instance : Carrier Continuation := ⟨fun k => carried k.callback⟩
instance : Carrier (Future Continuation) := ⟨fun f => carried f.settlement ∪ carried f.waiting⟩

instance : Carrier Job where
  carried
    | .thread _ _ _ => ∅
    | .async body _ => carried body
    | .continuation k settled => carried k ∪ carried settled

instance : Carrier Builtin.MapAnswer where
  carried
    | .value v => carried v
    | .items vs => carried vs
    | .pairs es => carried es

/-- A change of a list tells what it adds. -/
instance : Carrier (Array Value → Array Value) where
  carried f := {x | ∃ xs, x ∈ carried (f xs) ∧ x ∉ carried xs}

/-- A heap tells what all its parts tell. -/
instance : Carrier Heap where
  carried h :=
    carried h.scopes ∪ carried h.arrays ∪ carried h.maps ∪ carried h.objects ∪
      carried h.collections ∪ carried h.hub ∪ carried h.futures ∪ carried h.threads ∪
      carried h.statics ∪ carried h.registry ∪ carried h.jobs

end Carrier

section Values

variable {w : World}

@[simp] theorem knows_object {o : Instance} : Knows w (.object o : Value) ↔ Knows w o := Iff.rfl

@[simp] theorem knows_instanceMethod {id : Nat} {o : Instance} {c : ClassDef} {name : String} :
    Knows w (.instanceMethod id o c name : Value) ↔ Knows w o := Iff.rfl

@[simp] theorem knows_builtinMethod {id : Nat} {v : Value} {name : String} :
    Knows w (.builtinMethod id v name : Value) ↔ Knows w v := Iff.rfl

theorem knows_instance {o : Instance} : Knows w o ↔ .object o ∈ w ∧ Knows w o.cls := by
  exact Set.insert_subset_iff

@[simp] theorem knows_collection {c : Collection} :
    Knows w (.collection c : Value) ↔ Knows w c := Iff.rfl

theorem knows_collectionFact {c : Collection} : Knows w c ↔ .collection c ∈ w := by
  exact Set.singleton_subset_iff

@[simp] theorem knows_channel {id : Nat} {t : Option TypeExpr} :
    Knows w (.channel id t : Value) ↔ .channel id t ∈ w := by
  exact Set.singleton_subset_iff

@[simp] theorem knows_vnil : Knows w Value.nil := Set.empty_subset w
@[simp] theorem knows_vbool {b : Bool} : Knows w (.bool b : Value) := Set.empty_subset w
@[simp] theorem knows_vint {i : Int64} : Knows w (.int i : Value) := Set.empty_subset w
@[simp] theorem knows_vfloat {x : Decimal.Double} : Knows w (.float x : Value) := Set.empty_subset w
@[simp] theorem knows_vstr {s : String} : Knows w (.str s : Value) := Set.empty_subset w
@[simp] theorem knows_varray {id : Nat} : Knows w (.array id : Value) := Set.empty_subset w
@[simp] theorem knows_vmap {id : Nat} : Knows w (.map id : Value) := Set.empty_subset w
@[simp] theorem knows_vthread {id : Nat} : Knows w (.thread id : Value) := Set.empty_subset w
@[simp] theorem knows_vnative {f : Native} : Knows w (.native f : Value) := Set.empty_subset w
@[simp] theorem knows_vmodule {m : Module} : Knows w (.module m : Value) := Set.empty_subset w
@[simp] theorem knows_vclass {c : ClassDef} : Knows w (.classDef c : Value) ↔ Knows w c := Iff.rfl

@[simp] theorem knows_vinterface {i : Interface} :
    Knows w (.interfaceDef i : Value) ↔ Knows w i := Iff.rfl

@[simp] theorem knows_vfunction {id : Nat} {f : Function} : Knows w (.function id f : Value) := by
  exact Set.empty_subset w

@[simp] theorem knows_vstatic {id : Nat} {c : ClassDef} {name : String} :
    Knows w (.staticMethod id c name : Value) := by
  exact Set.empty_subset w

@[simp] theorem knows_vfuture {id : Nat} {k : FutureKind} : Knows w (.future id k : Value) := by
  exact Set.empty_subset w

@[simp] theorem knows_flow_value {v : Value} : Knows w (Flow.value v) ↔ Knows w v := Iff.rfl
@[simp] theorem knows_flow_ret {v : Value} : Knows w (Flow.ret v) ↔ Knows w v := Iff.rfl
@[simp] theorem knows_flow_stop : Knows w Flow.stop := Set.empty_subset w
@[simp] theorem knows_flow_next : Knows w Flow.next := Set.empty_subset w

@[simp] theorem knows_exception {e : Exception} : Knows w e ↔ Knows w e.value := Iff.rfl
@[simp] theorem knows_thrown {e : Exception} : Knows w (Signal.thrown e) ↔ Knows w e.value := Iff.rfl
@[simp] theorem knows_fault {f : Fault} : Knows w (Signal.fault f) := Set.empty_subset w

@[simp] theorem knows_returned {v : Value} : Knows w (Outcome.returned v) ↔ Knows w v := Iff.rfl
@[simp] theorem knows_othrown {e : Exception} :
    Knows w (Outcome.thrown e) ↔ Knows w e.value := Iff.rfl
@[simp] theorem knows_faulted {f : Fault} : Knows w (Outcome.faulted f) := Set.empty_subset w

@[simp] theorem knows_fulfilled {v : Value} : Knows w (Settlement.fulfilled v) ↔ Knows w v := Iff.rfl
@[simp] theorem knows_rejected {e : Exception} :
    Knows w (Settlement.rejected e) ↔ Knows w e.value := Iff.rfl
@[simp] theorem knows_pending : Knows w Settlement.pending := Set.empty_subset w
@[simp] theorem knows_cancelled : Knows w Settlement.cancelled := Set.empty_subset w

@[simp] theorem knows_binding {b : Binding} : Knows w b ↔ Knows w b.value := Iff.rfl
@[simp] theorem knows_receiver {r : Receiver} : Knows w r ↔ Knows w r.this := Iff.rfl
@[simp] theorem knows_frame {f : Frame} : Knows w f ↔ Knows w f.receiver := Iff.rfl
@[simp] theorem knows_static {s : StaticField} : Knows w s ↔ Knows w s.value := Iff.rfl
@[simp] theorem knows_continuation {k : Continuation} : Knows w k ↔ Knows w k.callback := Iff.rfl

@[simp] theorem knows_scope {s : Scope} : Knows w s ↔ Knows w s.vars ∧ Knows w s.frame := by
  exact Set.union_subset_iff

@[simp] theorem knows_statics {s : Statics} : Knows w s ↔ Knows w s.slots ∧ Knows w s.constants := by
  exact Set.union_subset_iff

@[simp] theorem knows_future {f : Future Continuation} :
    Knows w f ↔ Knows w f.settlement ∧ Knows w f.waiting := by
  exact Set.union_subset_iff

@[simp] theorem knows_state {s : ObjectState} : Knows w s ↔ Knows w s.fields := Iff.rfl
@[simp] theorem knows_items {xs : Array Value} :
    Knows w (CollectionContents.items xs) ↔ Knows w xs := Iff.rfl
@[simp] theorem knows_entries {m : KeyedMap} :
    Knows w (CollectionContents.entries m) ↔ Knows w m := Iff.rfl
@[simp] theorem knows_queue {c : Channel Value} : Knows w c ↔ Knows w c.queue := Iff.rfl
@[simp] theorem knows_received {i : Nat} {v : Value} :
    Knows w (Channel.Selected.received i v) ↔ Knows w v := Iff.rfl
@[simp] theorem knows_closed {i : Nat} : Knows w (Channel.Selected.closed i : Channel.Selected Value) :=
  Set.empty_subset w
@[simp] theorem knows_exhausted : Knows w (Channel.Selected.exhausted : Channel.Selected Value) :=
  Set.empty_subset w

@[simp] theorem knows_threadJob {id : Nat} {body : List Stmt} {env : Env} :
    Knows w (Job.thread id body env) := by
  exact Set.empty_subset w

@[simp] theorem knows_asyncJob {v : Value} {id : Nat} : Knows w (Job.async v id) ↔ Knows w v := by
  exact Iff.rfl

@[simp] theorem knows_continuationJob {k : Continuation} {s : Settlement} :
    Knows w (Job.continuation k s) ↔ Knows w k.callback ∧ Knows w s := by
  exact Set.union_subset_iff

@[simp] theorem knows_answer_value {v : Value} :
    Knows w (Builtin.MapAnswer.value v) ↔ Knows w v := Iff.rfl
@[simp] theorem knows_answer_items {vs : List Value} :
    Knows w (Builtin.MapAnswer.items vs) ↔ Knows w vs := Iff.rfl
@[simp] theorem knows_answer_pairs {es : List (Value × Value)} :
    Knows w (Builtin.MapAnswer.pairs es) ↔ Knows w es := Iff.rfl

theorem knows_change {f : Array Value → Array Value} :
    Knows w f ↔ ∀ u xs, w ⊆ u → Knows u xs → Knows u (f xs) := by
  constructor
  · intro hf u xs hu hxs x hx
    by_cases hold : x ∈ carried xs
    · exact hxs hold
    · exact hu (hf ⟨xs, hx, hold⟩)
  · rintro hf x ⟨xs, hx, hnew⟩
    exact (hf (w ∪ carried xs) xs Set.subset_union_left (Knows.self w xs) hx).resolve_right hnew

/-- A heap is known when all its parts are. -/
theorem knows_heap {h : Heap} :
    Knows w h ↔ Knows w h.scopes ∧ Knows w h.arrays ∧ Knows w h.maps ∧ Knows w h.objects ∧
      Knows w h.collections ∧ Knows w h.hub ∧ Knows w h.futures ∧ Knows w h.threads ∧
      Knows w h.statics ∧ Knows w h.registry ∧ Knows w h.jobs := by
  simp only [Knows, carried, Set.union_subset_iff, and_assoc]

namespace Knows

variable {h : Heap}

theorem with_scopes {s : Scopes} (hh : Knows w h) (hs : Knows w s) :
    Knows w { h with scopes := s } := by
  rw [knows_heap] at hh ⊢
  exact ⟨hs, hh.2⟩

theorem with_arrays {a : Array (Array Value)} (hh : Knows w h) (ha : Knows w a) :
    Knows w { h with arrays := a } := by
  rw [knows_heap] at hh ⊢
  exact ⟨hh.1, ha, hh.2.2⟩

theorem with_maps {m : Array KeyedMap} (hh : Knows w h) (hm : Knows w m) :
    Knows w { h with maps := m } := by
  rw [knows_heap] at hh ⊢
  exact ⟨hh.1, hh.2.1, hm, hh.2.2.2⟩

theorem with_objects {o : Array (Traced ObjectState)} (hh : Knows w h) (ho : Knows w o) :
    Knows w { h with objects := o } := by
  rw [knows_heap] at hh ⊢
  exact ⟨hh.1, hh.2.1, hh.2.2.1, ho, hh.2.2.2.2⟩

theorem with_collections {c : Array CollectionContents} (hh : Knows w h) (hc : Knows w c) :
    Knows w { h with collections := c } := by
  rw [knows_heap] at hh ⊢
  exact ⟨hh.1, hh.2.1, hh.2.2.1, hh.2.2.2.1, hc, hh.2.2.2.2.2⟩

theorem with_hub {u : Hub Value} (hh : Knows w h) (hu : Knows w u) :
    Knows w { h with hub := u } := by
  rw [knows_heap] at hh ⊢
  exact ⟨hh.1, hh.2.1, hh.2.2.1, hh.2.2.2.1, hh.2.2.2.2.1, hu, hh.2.2.2.2.2.2⟩

theorem with_futures {f : Array (Future Continuation)} {js : List Job} (hh : Knows w h)
    (hf : Knows w f) (hjs : Knows w js) :
    Knows w { h with futures := f, jobs := js } := by
  rw [knows_heap] at hh ⊢
  obtain ⟨h₁, h₂, h₃, h₄, h₅, h₆, -, h₇, h₈, h₉, -⟩ := hh
  exact ⟨h₁, h₂, h₃, h₄, h₅, h₆, hf, h₇, h₈, h₉, hjs⟩

theorem with_threads {t : Array (Option Outcome)} (hh : Knows w h) (ht : Knows w t) :
    Knows w { h with threads := t } := by
  rw [knows_heap] at hh ⊢
  obtain ⟨h₁, h₂, h₃, h₄, h₅, h₆, h₇, -, h₈⟩ := hh
  exact ⟨h₁, h₂, h₃, h₄, h₅, h₆, h₇, ht, h₈⟩

theorem with_statics {s : Array (Traced Statics)} (hh : Knows w h) (hs : Knows w s) :
    Knows w { h with statics := s } := by
  rw [knows_heap] at hh ⊢
  obtain ⟨h₁, h₂, h₃, h₄, h₅, h₆, h₇, h₈, -, h₉⟩ := hh
  exact ⟨h₁, h₂, h₃, h₄, h₅, h₆, h₇, h₈, hs, h₉⟩

theorem with_registry {r : Registry} (hh : Knows w h) (hr : Knows w r) :
    Knows w { h with registry := r } := by
  rw [knows_heap] at hh ⊢
  obtain ⟨h₁, h₂, h₃, h₄, h₅, h₆, h₇, h₈, h₉, -, h₁₀⟩ := hh
  exact ⟨h₁, h₂, h₃, h₄, h₅, h₆, h₇, h₈, h₉, hr, h₁₀⟩

end Knows

end Values
end ScriptEngine
