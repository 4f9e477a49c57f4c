import Mathlib.Logic.Relation
import Mathlib.Tactic.Tauto
import ScriptEngine.Proofs.Registry.Lawful
import ScriptEngine.Proofs.Stores.World
import ScriptEngine.Session

/-!
# The changes of a program's stores

Whatever a thread does, it changes instances, collections, channels and static fields in a few ways
only.  `Change` lists them, each with the checks that come before it; a `Path` is a sequence of them.
That every evaluation is one is proved in later modules, and what a program keeps to is read off the
list here.

**Scalar types.** A union of builtin scalar names asks for nothing but the kind of a value.  Whether
a value may be stored under it does not depend on the heap, so a check that has passed once holds for
good.

**Holding.** A thread holds what it knows, the instances it is building with what is yet to befall them,
and the types it is declaring with the number of their constants so far.  Nobody else fills their fields.

**Agreement.** `Agree` says how a list of such holdings fits the world and the heap: who is who is
told alike by all that know it, and what is stored obeys the types declared for it.
-/

namespace ScriptEngine

/-! ### Declared types that are scalar -/

/-- The builtin names of types without parts. -/
def scalarNames : List String := ["Int", "Float", "Number", "String", "Bool", "Nil", "Any"]

namespace TypeExpr

mutual

/-- Whether a type is a scalar name, in any spelling, or a union of such. -/
def isScalar : TypeExpr → Bool
  | named n [] => scalarNames.contains (canonicalName n)
  | named _ (_ :: _) => false
  | union ms => areScalar ms
  | wildcard | boundedAbove _ | boundedBelow _ => false

/-- Whether several types are all scalar. -/
def areScalar : List TypeExpr → Bool
  | [] => true
  | m :: ms => isScalar m && areScalar ms

end

end TypeExpr

namespace Heap

variable {v : Value}

/-- The scalar names are builtin, whatever a program declares. -/
theorem isKnownType_of_scalar
    {n : String} (hn : scalarNames.contains n = true) (h : Heap) :
    h.isKnownType n = true := by
  have hbuiltin : builtinTypes.contains n = true := by
    simp only [scalarNames, List.contains_iff_mem, List.mem_cons, List.not_mem_nil] at hn
    simp only [builtinTypes, List.contains_iff_mem, List.mem_cons]
    tauto
  rw [isKnownType, hbuiltin, Bool.true_or]

/-- A type without arguments is tested by its name only. -/
theorem plainConforms_eq
    (n : String) (h h' : Heap) :
    h.plainConforms v n = h'.plainConforms v n := by
  simp only [plainConforms, instanceOf, namedInstance, List.isEmpty_nil, Bool.true_or,
    Bool.and_true]

mutual

/-- A scalar type fits a value on every heap or on none. -/
theorem fits_of_scalar
    (h h' : Heap) : (t : TypeExpr) → t.isScalar = true → h.fits v t = h'.fits v t
  | .named n [], ht => by
      rw [TypeExpr.isScalar] at ht
      simp only [fits, isKnownType_of_scalar ht, List.isEmpty_nil]
      exact plainConforms_eq n h h'
  | .named n (a :: as), ht => by
      simp [TypeExpr.isScalar] at ht
  | .union ms, ht => by
      rw [TypeExpr.isScalar] at ht
      exact fitsAny_of_scalar h h' ms ht
  | .wildcard, ht => by
      simp [TypeExpr.isScalar] at ht
  | .boundedAbove b, ht => by
      simp [TypeExpr.isScalar] at ht
  | .boundedBelow b, ht => by
      simp [TypeExpr.isScalar] at ht

theorem fitsAny_of_scalar
    (h h' : Heap) :
    (ms : List TypeExpr) → TypeExpr.areScalar ms = true → h.fitsAny v ms = h'.fitsAny v ms
  | [], _ => rfl
  | m :: ms, hms => by
      rw [TypeExpr.areScalar, Bool.and_eq_true] at hms
      rw [fitsAny, fitsAny, fits_of_scalar h h' m hms.1, fitsAny_of_scalar h h' ms hms.2]

end

end Heap

/-- A value may be stored under a declared type, if that type is scalar. -/
def Obeys (v : Value) (declared : TypeExpr) (bs : Bindings) : Prop :=
  (declared.substitute bs).isScalar = true → ∀ h : Heap, h.conforms v declared bs = true

namespace Obeys

variable {v : Value} {t : TypeExpr} {bs : Bindings}

/-- What passes the check once passes it always. -/
theorem of_conforms
    {h : Heap} (hv : h.conforms v t bs = true) :
    Obeys v t bs := by
  intro ht h'
  rw [Heap.conforms] at hv ⊢
  rwa [Heap.fits_of_scalar h' h _ ht]

/-- Nil goes everywhere. -/
theorem nil
    (t : TypeExpr) (bs : Bindings) :
    Obeys .nil t bs := by
  intro _ h
  rfl

theorem of_checkFault?
    {h : Heap} {what : String} (hnone : h.checkFault? v t bs what = none) :
    Obeys v t bs := by
  rw [Heap.checkFault?] at hnone
  split at hnone
  · exact of_conforms (by assumption)
  · cases hnone

end Obeys

/-- A value may be stored under a type that may be declared. -/
def ObeysOption (v : Value) (declared : Option TypeExpr) (bs : Bindings) : Prop :=
  ∀ t, declared = some t → Obeys v t bs

theorem ObeysOption.of_checkFault?
    {v : Value} {declared : Option TypeExpr} {bs : Bindings} {h : Heap} {what : String}
    (hnone : (declared.bind fun t => h.checkFault? v t bs what) = none) :
    ObeysOption v declared bs := by
  intro t ht
  rw [ht, Option.bind_some] at hnone
  exact .of_checkFault? hnone

/-! ### The course of a construction -/

namespace ClassDef

/-- The fields that a class itself declares are filled one after another. -/
def ownFillings (c : ClassDef) : List BuildEvent :=
  c.own.fields.flatMap fun f => [.begun c.id f.name, .filled c.id f.name]

/-- The fields of the oldest ancestor are filled first, and those of the class itself at last. -/
def fillings (c : ClassDef) : List BuildEvent := c.lineage.reverse.flatMap ownFillings

/-- What befalls an instance of a class: all its fields are filled before its constructor runs. -/
def course (c : ClassDef) : List BuildEvent := c.fillings ++ [.entered]

end ClassDef

/-- The names of the fields that are yet to be filled. -/
def BuildEvent.fieldsOf (left : List BuildEvent) : Set String := {name | ∃ id, .filled id name ∈ left}

/-- Nothing is left but the constructor, if there is one. -/
def BuildEvent.AllFilled (left : List BuildEvent) : Prop := left = [] ∨ left = [.entered]

/-! ### What is stored where -/

namespace Instance

/-- A value obeys the type of the nearest field of a name, if its class declares just one. -/
def Admits (o : Instance) (name : String) (v : Value) : Prop :=
  ∀ d f, o.cls.fieldNamed name = some (d, f) → d.own.fields.filter (·.name == name) = [f] →
    ObeysOption v f.type (o.bindingsAt d.name)

/-- Whether a class and its ancestors declare just one field of a name. -/
def DeclaresOnce (o : Instance) (name : String) : Prop :=
  ∃ f, (o.cls.lineage.flatMap (·.own.fields)).filter (·.name == name) = [f]

/-- The fields of some names obey their types. -/
def FieldsObey (o : Instance) (fields : Assoc Value) (names : Set String) : Prop :=
  ∀ name ∈ names, ∀ v, fields.find? name = some v → o.Admits name v

/-- The components of a record obey their types, if it has just one of the name. -/
def ComponentsObey (o : Instance) (fields : Assoc Value) : Prop :=
  ∀ p, o.cls.own.components.filter (·.name == p.name) = [p] →
    ∀ v, fields.find? p.name = some v →
      ObeysOption v p.type (pairParams o.cls.own.typeParams o.typeArgs)

/-- A field that must not change any more once the instance is constructed, or a component. -/
def Immutable (o : Instance) (name : String) : Prop :=
  o.cls.kind = .record ∨ ∃ d f, o.cls.fieldNamed name = some (d, f) ∧ f.kind.isImmutable = true

end Instance

/-- What an instance holds obeys the types that its class declares.  While its construction is
under way, that goes only for what is declared once. -/
structure ObjectState.Obey (s : ObjectState) : Prop where
  fields : s.self.cls.kind ≠ .record → s.built = true → s.self.FieldsObey s.fields Set.univ
  once : s.self.cls.kind ≠ .record →
    s.self.FieldsObey s.fields {name | s.self.DeclaresOnce name}
  components : s.self.cls.kind = .record → s.self.ComponentsObey s.fields

/-- What has befallen an instance is a part of the course that its construction takes, and all its fields
have been filled when it is built. -/
structure ObjectState.OnCourse (s : ObjectState) : Prop where
  course : s.self.cls.kind ≠ .record → s.told.reverse <+: s.self.cls.course
  filled : s.self.cls.kind ≠ .record → s.built = true → s.self.cls.fillings <+: s.told.reverse

/-- The cell of an instance has been filled. -/
def ObjectState.Filled (s : ObjectState) : Prop := s.self ≠ (default : ObjectState).self

/-- An instance is in a state in which it may be. -/
structure ObjectState.Proper (s : ObjectState) : Prop where
  obey : s.Obey
  onCourse : s.OnCourse

/-- What an instance may turn into: when its construction is over, it stays over, and what is
immutable stays as it is. -/
structure ObjectState.Precedes (s s' : ObjectState) : Prop where
  self : s'.self = s.self
  finished : s.constructing = false → s'.constructing = false
  fields : s.constructing = false → ∀ name, s.self.Immutable name →
    s'.fields.find? name = s.fields.find? name

def Statics.Obey (s : Statics) : Prop :=
  ∀ name slot, s.slots.find? name = some slot → ObeysOption slot.value slot.type []

/-- What static fields may turn into: when the type is declared, what is immutable stays as it is,
and so do the constants of an enum. -/
structure Statics.Precedes (s s' : Statics) : Prop where
  declared : s.declared = true → s'.declared = true
  slots : s.declared = true → ∀ name slot, s.slots.find? name = some slot →
    slot.kind.isImmutable = true → s'.slots.find? name = some slot
  constants : s.declared = true → s'.constants = s.constants

namespace Collection

/-- A value obeys the type of the elements of a sequence. -/
def TakesItem (c : Collection) (v : Value) : Prop := ObeysOption v c.typeArgs[0]? []

/-- A key and a value obey the types of the entries of a map. -/
def TakesEntry (c : Collection) (key v : Value) : Prop :=
  ObeysOption key c.typeArgs[0]? [] ∧ ObeysOption v c.typeArgs[1]? []

/-- What a collection holds is of its kind and obeys its type arguments. -/
def Takes (c : Collection) : CollectionContents → Prop
  | .items xs => c.kind ≠ .map ∧ ∀ v ∈ xs, c.TakesItem v
  | .entries m => c.kind = .map ∧ ∀ e ∈ m.entries, c.TakesEntry e.1 e.2

end Collection

/-- What type parameters may stand for in code that a program runs. -/
inductive Meaning (w : World) : Bindings → Prop
  | plain : Meaning w []
  | within (o : Instance) (name : String) : .object o ∈ w → Meaning w (o.bindingsAt name)

/-- A value obeys the type of its variable, as the code that gave it to the variable reads it. -/
def Binding.Obeys (b : Binding) (w : World) : Prop :=
  ∀ t, b.type = some t → ∃ bs, Meaning w bs ∧ ScriptEngine.Obeys b.value t bs

def Scopes.binding? (s : Scopes) (id : ScopeId) (name : String) : Option Binding :=
  (s.scope id).vars.find? name

/-- What the code of the frame of a scope runs on. -/
def Scopes.receiverAt? (s : Scopes) (id : ScopeId) : Option Receiver :=
  (s.scope id).frame.bind (·.receiver)

/-- The constants of an enum of some number are instances of it with the numbers of their places, and
a name stands for the last constant that is called so unless a static field of that name was filled. -/
structure Statics.Numbered (s : Statics) (w : World) (id : Nat) : Prop where
  constants : ∀ (i : Nat) (v : Value), s.constants[i]? = some v → ∃ (o : Instance) (name : String),
    v = .object o ∧ Knows w o ∧ o.cls.id = id ∧ o.constant = some (name, i)
  slots : ∀ name, name ∉ s.filled → s.slots.find? name =
    (s.constants.reverse.find? (Builtin.isConstant name)).map fun v => ⟨v, .constBinding, none⟩

/-! ### Who is who -/

/-- What is traced has been as it should be in every state, and it has gone only the ways it may. -/
structure Orderly {α : Type} (R : α → α → Prop) (P : α → Prop) (ts : Array (Traced α)) : Prop where
  kept : ∀ t ∈ ts, t.Kept R
  each : ∀ t ∈ ts, ∀ a ∈ t.states, P a

/-- Instances are as a world tells them, and they have never been otherwise. -/
structure ObjectsFit (w : World) (objects : Array (Traced ObjectState)) : Prop where
  lt : ∀ {o}, .object o ∈ w → o.id < objects.size
  self : ∀ {o}, .object o ∈ w → (objects.getD o.id default).now.self = o
  orderly : Orderly ObjectState.Precedes ObjectState.Proper objects

/-- Collections are as a world tells them. -/
structure CollectionsFit (w : World) (collections : Array CollectionContents) : Prop where
  lt : ∀ {c}, .collection c ∈ w → c.id < collections.size
  eq : ∀ {c c'}, .collection c ∈ w → .collection c' ∈ w → c.id = c'.id → c = c'
  takes : ∀ {c}, .collection c ∈ w → c.Takes (collections.getD c.id default)

/-- Channels are as a world tells them. -/
structure ChannelsFit (w : World) (hub : Hub Value) : Prop where
  lt : ∀ {id t}, .channel id t ∈ w → id < hub.channels.size
  eq : ∀ {id t t'}, .channel id t ∈ w → .channel id t' ∈ w → t = t'
  obey : ∀ {id t}, .channel id t ∈ w → ∀ v ∈ (hub.channel id).queue, ObeysOption v t []

/-- Interfaces are known apart by their numbers, for which there is room among a number of static
fields. -/
structure InterfacesFit (w : World) (room : Nat) : Prop where
  lt : ∀ {i}, .interface i ∈ w → i.own.id < room
  coherent : Interface.Coherent {i | .interface i ∈ w}

/-- Classes are known apart by their numbers, too, and a class is known with its ancestors. -/
structure ClassesFit (w : World) (room : Nat) : Prop where
  lt : ∀ {c}, .cls c ∈ w → c.id < room
  eq : ∀ {c c'}, .cls c ∈ w → .cls c' ∈ w → c.id = c'.id → c = c'
  up : ∀ {c}, .cls c ∈ w → ∀ d ∈ c.lineage, .cls d ∈ w

/-- That a type is known. -/
def TypeDef.fact : TypeDef → Fact
  | cls c => .cls c
  | interface i => .interface i

/-- Every type that is known has been declared, and as long as no name has been declared twice, types are
known apart by their names. -/
structure NamesFit (w : World) (declared : List String) : Prop where
  mem : ∀ {t : TypeDef}, t.fact ∈ w → t.name ∈ declared
  eq : declared.Nodup → ∀ {t u : TypeDef}, t.fact ∈ w → u.fact ∈ w → t.name = u.name → t = u

/-- A heap is as a world tells it. -/
structure Fits (w : World) (h : Heap) : Prop where
  known : Knows w h
  bound : ∀ {id name b}, h.scopes.binding? id name = some b → b.Obeys w
  frames : ∀ {id r}, .frame id r ∈ w → h.scopes.receiverAt? id = some r
  objects : ObjectsFit w h.objects
  /-- The class of every instance is known, but for cells that have never been filled. -/
  owners : ∀ id, (h.object id).Filled → .cls (h.object id).self.cls ∈ w
  collections : CollectionsFit w h.collections
  channels : ChannelsFit w h.hub
  statics : Orderly Statics.Precedes Statics.Obey h.statics
  numbered : ∀ id, ∀ s ∈ (h.statics.getD id default).states, s.Numbered w id
  interfaces : InterfacesFit w h.statics.size
  classes : ClassesFit w h.statics.size
  names : NamesFit w h.declared
  registry : Registry.Lawful h.registry

/-- What a thread knows, and what it has begun and is yet to finish. -/
structure Hold where
  known : World
  /-- The instances under construction, the last one first, with what is yet to befall them. -/
  building : List (Nat × List BuildEvent)
  /-- The types under declaration, the last one first, with the number of their constants so far. -/
  declaring : List (Nat × Nat)

/-- A thread that has begun nothing. -/
def Hold.idle : Hold := ⟨∅, [], []⟩

/-- An instance under construction. -/
structure Building (h : Heap) (id : Nat) (left : List BuildEvent) : Prop where
  constructing : (h.object id).constructing = true
  unbuilt : ¬BuildEvent.AllFilled left → (h.object id).built = false
  kind : (h.object id).self.cls.kind ≠ .record
  course : (h.object id).told.reverse ++ left = (h.object id).self.cls.course
  obey : (h.object id).self.FieldsObey (h.object id).fields (BuildEvent.fieldsOf left)ᶜ

/-- A type under declaration. -/
structure Declaring (h : Heap) (id constants : Nat) : Prop where
  lt : id < h.statics.size
  open_ : (h.staticsOf id).declared = false
  length : (h.staticsOf id).constants.length = constants

/-- What several threads hold fits the world and the heap. -/
structure Agree (ks : List Hold) (w : World) (h : Heap) : Prop where
  fits : Fits w h
  known : ∀ k ∈ ks, k.known ⊆ w
  building : ∀ s ∈ ks.flatMap (·.building), Building h s.1 s.2
  apart : ((ks.flatMap (·.building)).map (·.1)).Nodup
  declaring : ∀ d ∈ ks.flatMap (·.declaring), Declaring h d.1 d.2
  distinct : ((ks.flatMap (·.declaring)).map (·.1)).Nodup

/-! ### The changes -/

/-- A change of anything but instances, collections, channels and static fields. -/
structure Quiet (w : World) (h h' : Heap) : Prop where
  objects : h'.objects = h.objects
  collections : h'.collections = h.collections
  hub : h'.hub = h.hub
  statics : h'.statics = h.statics
  declared : h'.declared = h.declared
  known : Knows w h → Knows w h'
  registry : Registry.Lawful h.registry → Registry.Lawful h'.registry
  /-- Every variable has been there before, or it obeys its type. -/
  bound : ∀ {id name b}, h'.scopes.binding? id name = some b →
    (∃ i, h.scopes.binding? i name = some b) ∨ b.Obeys w
  /-- The code of every frame runs on what it has run on before. -/
  frames : ∀ {id r}, h.scopes.receiverAt? id = some r → h'.scopes.receiverAt? id = some r

/-- What a thread may do. -/
inductive Change : Hold → World → Heap → Hold → World → Heap → Prop
  | quiet {k w h h'} :
      Quiet w h h' → Change k w h k w h'
  | learn {k w h} {u : World} :
      u ⊆ w → Change k w h { k with known := k.known ∪ u } w h
  /-- What the code of a frame runs on gets known. -/
  | notice {k w h} {id : ScopeId} {r : Receiver} :
      h.scopes.receiverAt? id = some r → Change k w h k (w ∪ {.frame id r}) h
  | record {k w h} {o : Instance} {fields : Assoc Value} :
      o.id = h.objects.size → o.cls.kind = .record → Knows w o.cls → Knows w fields →
      o.ComponentsObey fields →
      Change k w h k (w ∪ {.object o})
        { h with objects := h.objects.push (.new ⟨o, fields, false, true, []⟩) }
  /-- The construction of an instance begins. -/
  | start {k w h} {o : Instance} :
      o.id = h.objects.size → o.cls.kind ≠ .record → Knows w o.cls →
      Change k w h { k with building := (o.id, o.cls.course) :: k.building } (w ∪ {.object o})
        { h with objects := h.objects.push (.new ⟨o, ∅, true, false, []⟩) }
  /-- An initializer is to be evaluated, which runs on the instance itself. -/
  | begin {k w h} {o : Instance} {c : ClassDef} {name : String} {id : ScopeId} {closure : Env}
      {left : List BuildEvent} {rest : List (Nat × List BuildEvent)} :
      k.building = (o.id, .begun c.id name :: left) :: rest → .frame id ⟨o, c⟩ ∈ w →
      Change k w h { k with building := (o.id, left) :: rest } w (h.beginField name (id :: closure))
  /-- A field gets its first value, from such an initializer. -/
  | fill {k w h} {o : Instance} {c : ClassDef} {name : String} {id : ScopeId} {closure : Env}
      {v : Value} {left : List BuildEvent} {rest : List (Nat × List BuildEvent)} :
      k.building = (o.id, .filled c.id name :: left) :: rest → .object o ∈ w →
      .frame id ⟨o, c⟩ ∈ w → Knows w v →
      (name ∉ BuildEvent.fieldsOf left → o.Admits name v) → (o.DeclaresOnce name → o.Admits name v) →
      Change k w h { k with building := (o.id, left) :: rest } w (h.fillField o name (id :: closure) v)
  /-- The constructor of an instance is to run. -/
  | enter {k w h} {o : Instance} {left : List BuildEvent} {rest : List (Nat × List BuildEvent)} :
      k.building = (o.id, .entered :: left) :: rest →
      Change k w h { k with building := (o.id, left) :: rest } w (h.tell o .entered)
  /-- A field is assigned to. -/
  | write {k w h} {o : Instance} {name : String} {v : Value} :
      .object o ∈ w → Knows w v →
      (o.Immutable name → (h.object o.id).constructing = true) → o.cls.kind ≠ .record →
      o.Admits name v →
      Change k w h k w (h.setField o name v)
  /-- All fields of an instance are filled. -/
  | complete {k w h} {o : Instance} {left : List BuildEvent} {rest : List (Nat × List BuildEvent)} :
      k.building = (o.id, left) :: rest → BuildEvent.AllFilled left →
      Change k w h k w (h.markBuilt o)
  /-- The construction of an instance ends. -/
  | finish {k w h} {o : Instance} {left : List BuildEvent} {rest : List (Nat × List BuildEvent)} :
      k.building = (o.id, left) :: rest →
      Change k w h { k with building := rest } w (h.endConstruction o)
  | openCollection {k w h} {c : Collection} :
      c.id = h.collections.size →
      Change k w h k (w ∪ {.collection c})
        { h with collections := h.collections.push (Heap.emptyData c.kind) }
  | elements {k w h} {c : Collection} {f : CollectionContents → CollectionContents} :
      .collection c ∈ w → (∀ d, Knows w d → c.Takes d → Knows w (f d) ∧ c.Takes (f d)) →
      Change k w h k w (h.modifyCollection c.id f)
  | openChannel {k w h} {t : Option TypeExpr} (capacity : Option Nat) :
      Change k w h k (w ∪ {.channel h.hub.channels.size t})
        { h with hub := (h.hub.add capacity).2 }
  /-- A value comes into a channel, or something is taken out. -/
  | hub {k w h} {u : Hub Value} :
      h.hub.channels.size ≤ u.channels.size → (Knows w h.hub → Knows w u) →
      (∀ id, ∀ v ∈ (u.channel id).queue, v ∈ (h.hub.channel id).queue ∨
        ∀ t, .channel id t ∈ w → ObeysOption v t []) →
      Change k w h k w { h with hub := u }
  /-- The declaration of a type begins. -/
  | openStatics {k w h} :
      Change k w h { k with declaring := (h.statics.size, 0) :: k.declaring } w
        { h with statics := h.statics.push (.new default) }
  /-- The declaration of a class begins. -/
  | openClass {k w h} {c : ClassDef} :
      c.id = h.statics.size → (∀ d ∈ c.lineage, d = c ∨ .cls d ∈ w) →
      Change k w h { k with declaring := (h.statics.size, 0) :: k.declaring } (w ∪ {.cls c})
        { h with statics := h.statics.push (.new default), declared := c.name :: h.declared }
  /-- The declaration of an interface begins. -/
  | openInterface {k w h} {i : Interface} :
      i.own.id = h.statics.size →
      Change k w h { k with declaring := (h.statics.size, 0) :: k.declaring } (w ∪ {.interface i})
        { h with statics := h.statics.push (.new default), declared := i.name :: h.declared }
  | declare {k w h} {id n m : Nat} {rest : List (Nat × Nat)} {f : Statics → Statics} :
      k.declaring = (id, n) :: rest → (∀ s, Knows w s → Knows w (f s)) → (∀ s, s.Obey → (f s).Obey) →
      (∀ s, (f s).declared = s.declared) →
      (∀ s, s.constants.length = n → (f s).constants.length = m) →
      (∀ s, s.constants.length = n → s.Numbered w id → (f s).Numbered w id) →
      Change k w h { k with declaring := (id, m) :: rest } w (h.modifyStatics id f)
  /-- The declaration of a type ends. -/
  | closeStatics {k w h} {id n : Nat} {rest : List (Nat × Nat)} :
      k.declaring = (id, n) :: rest →
      Change k w h { k with declaring := rest } w (h.endDeclaration id)
  /-- The declaration of a type is broken off. -/
  | leaveStatics {k w h} {id n : Nat} {rest : List (Nat × Nat)} :
      k.declaring = (id, n) :: rest → Change k w h { k with declaring := rest } w h
  /-- A static field is assigned to. -/
  | assign {k w h} {id : Nat} {name : String} {slot : StaticField} {v : Value} :
      h.static? id name = some slot → slot.kind.isImmutable = false → Knows w v →
      ObeysOption v slot.type [] →
      Change k w h k w (h.setStatic id name { slot with value := v })

end ScriptEngine
