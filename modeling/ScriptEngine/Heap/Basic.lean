import ScriptEngine.Channel
import ScriptEngine.Future
import ScriptEngine.Heap.Event
import ScriptEngine.Heap.Registry
import ScriptEngine.Heap.Traced
import ScriptEngine.Value.KeyedMap

/-!
# The heap

All that a program can change: the contents of values with identity, the scopes, the declared
types, what was printed, the clock, and the work that waits for a thread of its own.

Each kind of content has an array of its own; a value holds the place in it.  Nothing is ever taken
out, so a place once given stays valid.  Instances and static fields are traced: their places tell
what they were before.

What befalls an evaluation is noted, each event together with the memory of that moment.  Notes are
only told, and nothing is kept of them when a program runs.
-/

namespace ScriptEngine

/-- What a thread ended with. -/
inductive Outcome
  | returned (v : Value)
  | thrown (e : Exception)
  | faulted (f : Fault)

/-- A static field. -/
structure StaticField where
  value : Value
  kind : BindingKind
  type : Option TypeExpr

/-- The static fields of a type, and for an enum its constants in order. -/
structure Statics where
  slots : Assoc StaticField
  constants : List Value
  /-- Whether the declaration has ended.  It is only told: no evaluation asks for it. -/
  declared : Bool
  /-- The names of the fields that have been given their first values.  It is only told, too. -/
  filled : List String

instance : Inhabited Statics := ⟨⟨∅, [], false, []⟩⟩

/-- What befalls an instance in the course of its construction. -/
inductive BuildEvent
  /-- The initializer of a field that the class of a number declares is to be evaluated. -/
  | begun (cls : Nat) (field : String)
  /-- Such a field gets its first value: its initializer has been evaluated. -/
  | filled (cls : Nat) (field : String)
  /-- The constructor begins. -/
  | entered

/-- The fields of an instance, and whether its construction is under way. -/
structure ObjectState where
  /-- The instance whose state this is.  It is only told: no evaluation asks for it. -/
  self : Instance
  fields : Assoc Value
  constructing : Bool
  /-- Whether the construction has come to its end without a failure.  It is only told. -/
  built : Bool
  /-- What has befallen the instance so far, the newest first.  It is only told, too. -/
  told : List BuildEvent

instance : Inhabited ObjectState := ⟨⟨⟨0, default, [], none⟩, ∅, false, false, []⟩⟩

/-- The elements of a collection. -/
inductive CollectionContents
  | items (xs : Array Value)
  | entries (m : KeyedMap)

instance : Inhabited CollectionContents := ⟨.items #[]⟩

/-- What a continuation does with a settlement. -/
inductive ChainStep
  | onFulfilled
  | onRejected
  | always
  deriving Repr, DecidableEq, Inhabited

/-- A callback that waits for a future, and the future that its result settles. -/
structure Continuation where
  step : ChainStep
  callback : Value
  target : Nat

/-- Work for a thread of its own. -/
inductive Job
  | thread (id : Nat) (body : List Stmt) (env : Env)
  /-- A function whose result settles a future. -/
  | async (body : Value) (target : Nat)
  | continuation (k : Continuation) (settled : Settlement)

/-- All that a program can look at. -/
structure Memory where
  scopes : Scopes
  arrays : Array (Array Value)
  maps : Array KeyedMap
  objects : Array (Traced ObjectState)
  collections : Array CollectionContents
  hub : Hub Value
  futures : Array (Future Continuation)
  threads : Array (Option Outcome)
  statics : Array (Traced Statics)
  registry : Registry
  output : String
  /-- Milliseconds since the program began. -/
  clock : Nat
  /-- The number of the next function or bound method. -/
  fresh : Nat
  /-- Work that no thread has begun, the oldest first. -/
  jobs : List Job
  /-- The names of the types that have been declared so far, the newest first.  They are only told: no
  evaluation asks for them, and a reset does not take them back. -/
  declared : List String

/-- An event, and the memory that it found. -/
structure Note where
  event : Event
  memory : Memory

/-- The state of a program. -/
structure Heap extends Memory where
  /-- What has been noted so far.  It is only told, too. -/
  past : Trail Note

namespace Heap

/-- The state in which nothing exists. -/
def empty : Heap where
  scopes := default
  arrays := #[]
  maps := #[]
  objects := #[]
  collections := #[]
  hub := .empty
  futures := #[]
  threads := #[]
  statics := #[]
  registry := ∅
  output := ""
  clock := 0
  fresh := 0
  jobs := []
  declared := []
  past := .start

instance : Inhabited Heap := ⟨empty⟩

def array (h : Heap) (id : Nat) : Array Value := h.arrays.getD id #[]

def map (h : Heap) (id : Nat) : KeyedMap := h.maps.getD id default

def object (h : Heap) (id : Nat) : ObjectState := (h.objects.getD id default).now

def collection (h : Heap) (id : Nat) : CollectionContents := h.collections.getD id default

def channel (h : Heap) (id : Nat) : Channel Value := h.hub.channel id

def future (h : Heap) (id : Nat) : Future Continuation := h.futures.getD id default

/-- The static fields of a type. -/
def staticsOf (h : Heap) (id : Nat) : Statics := (h.statics.getD id default).now

def field? (h : Heap) (o : Instance) (name : String) : Option Value :=
  (h.object o.id).fields.find? name

def newArray (h : Heap) (xs : Array Value) : Value × Heap :=
  (.array h.arrays.size, { h with arrays := h.arrays.push xs })

def newMap (h : Heap) (m : KeyedMap) : Value × Heap :=
  (.map h.maps.size, { h with maps := h.maps.push m })

/-- Makes an instance without fields, which is yet to be constructed. -/
def newObject (h : Heap) (c : ClassDef) (typeArgs : List TypeExpr)
    (constant : Option (String × Nat)) : Instance × Heap :=
  let o : Instance := ⟨h.objects.size, c, typeArgs, constant⟩
  (o, { h with objects := h.objects.push (.new ⟨o, ∅, true, false, []⟩) })

/-- Makes a record of its components. -/
def newRecord (h : Heap) (c : ClassDef) (typeArgs : List TypeExpr) (components : Assoc Value) :
    Instance × Heap :=
  let o : Instance := ⟨h.objects.size, c, typeArgs, none⟩
  (o, { h with objects := h.objects.push (.new ⟨o, components, false, true, []⟩) })

def emptyData : CollectionKind → CollectionContents
  | .map => .entries .empty
  | _ => .items #[]

/-- Makes an empty collection. -/
def newCollection (h : Heap) (kind : CollectionKind) (typeArgs : List TypeExpr) :
    Collection × Heap :=
  (⟨h.collections.size, kind, typeArgs⟩,
    { h with collections := h.collections.push (emptyData kind) })

def newChannel (h : Heap) (element : Option TypeExpr) (capacity : Option Nat) : Value × Heap :=
  let r := h.hub.add capacity
  (.channel r.1 element, { h with hub := r.2 })

/-- Makes an open future. -/
def newFuture (h : Heap) (kind : FutureKind) : Nat × Heap :=
  (h.futures.size, { h with futures := h.futures.push (.ofKind kind) })

/-- Makes a number for a function or bound method. -/
def newNumber (h : Heap) : Nat × Heap := (h.fresh, { h with fresh := h.fresh + 1 })

/-- Notes an event. -/
@[inline]
def note (h : Heap) (e : Event) : Heap := { h with past := h.past.after ⟨e, h.toMemory⟩ }

/-- What has been noted, the newest first. -/
noncomputable def notes (h : Heap) : List Note := h.past.states

/-- The events so far, the newest first. -/
noncomputable def history (h : Heap) : List Event := h.notes.map (·.event)

@[simp] theorem notes_empty : empty.notes = [] := Trail.states_start

@[simp] theorem history_empty : empty.history = [] := by simp [history]

@[simp] theorem notes_note (h : Heap) (e : Event) :
    (h.note e).notes = ⟨e, h.toMemory⟩ :: h.notes :=
  Trail.states_after _ _

@[simp] theorem history_note (h : Heap) (e : Event) : (h.note e).history = e :: h.history := by
  simp [history]

/-- Makes room for the static fields of a type. -/
def newStatics (h : Heap) : Nat × Heap :=
  (h.statics.size, { h with statics := h.statics.push (.new default) })

/-- Changes the elements of an array. -/
def modifyArray (h : Heap) (id : Nat) (f : Array Value → Array Value) : Heap :=
  { h with arrays := h.arrays.modify id f }

def modifyObject (h : Heap) (id : Nat) (f : ObjectState → ObjectState) : Heap :=
  { h with objects := h.objects.modify id (·.change f) }

def setField (h : Heap) (o : Instance) (name : String) (v : Value) : Heap :=
  h.modifyObject o.id fun s => { s with fields := s.fields.insert name v }

/-- Tells what befalls an instance. -/
def tell (h : Heap) (o : Instance) (e : BuildEvent) : Heap :=
  h.modifyObject o.id fun s => { s with told := e :: s.told }

/-- Tells what befalls the instance that the code of a scope runs on. -/
def tellReceiver (h : Heap) (env : Env) (e : ClassDef → BuildEvent) : Heap :=
  match h.scopes.receiver env with
  | some r => h.tell r.this (e r.cls)
  | none => h

/-- Tells that the initializer of a field is to be evaluated. -/
def beginField (h : Heap) (name : String) (env : Env) : Heap :=
  h.tellReceiver env fun c => .begun c.id name

/-- Gives a field of an instance its first value, and tells so. -/
def fillField (h : Heap) (o : Instance) (name : String) (env : Env) (v : Value) : Heap :=
  (h.setField o name v).tellReceiver env fun c => .filled c.id name

/-- Marks an instance as built. -/
def markBuilt (h : Heap) (o : Instance) : Heap :=
  h.modifyObject o.id fun s => { s with built := true }

/-- Marks the construction of an instance as over, whatever came of it. -/
def endConstruction (h : Heap) (o : Instance) : Heap :=
  h.modifyObject o.id fun s => { s with constructing := false }

/-- Changes the elements of a collection. -/
def modifyCollection (h : Heap) (id : Nat) (f : CollectionContents → CollectionContents) : Heap :=
  { h with collections := h.collections.modify id f }

def modifyStatics (h : Heap) (id : Nat) (f : Statics → Statics) : Heap :=
  { h with statics := h.statics.modify id (·.change f) }

/-- Gives a static field a value. -/
def setStatic (h : Heap) (id : Nat) (name : String) (slot : StaticField) : Heap :=
  h.modifyStatics id fun s => { s with slots := s.slots.insert name slot }

/-- Gives a static field its first value. -/
def fillStatic (h : Heap) (id : Nat) (name : String) (slot : StaticField) : Heap :=
  h.modifyStatics id fun s =>
    { s with slots := s.slots.insert name slot, filled := name :: s.filled }

/-- Gives an enum its next constant. -/
def addConstant (h : Heap) (id : Nat) (name : String) (v : Value) : Heap :=
  h.modifyStatics id fun s =>
    { s with
      slots := s.slots.insert name ⟨v, .constBinding, none⟩
      constants := s.constants ++ [v] }

/-- Marks the declaration of a type as ended. -/
def endDeclaration (h : Heap) (id : Nat) : Heap :=
  h.modifyStatics id fun s => { s with declared := true }

def static? (h : Heap) (id : Nat) (name : String) : Option StaticField :=
  (h.staticsOf id).slots.find? name

def staticHome? (h : Heap) (c : ClassDef) (name : String) : Option (ClassDef × StaticField) :=
  c.lineage.findSome? fun d => (h.static? d.id name).map (d, ·)

/-- The static field of a name that a class has or inherits. -/
def classStatic? (h : Heap) (c : ClassDef) (name : String) : Option Value :=
  (h.staticHome? c name).map (·.2.value)

/-- The static field of a name that an interface has or inherits. -/
def interfaceStatic? (h : Heap) (i : Interface) (name : String) : Option Value :=
  i.withExtended.findSome? fun j => (h.static? j.own.id name).map (·.value)

/-- The elements of a sequence, or the values of a map. -/
def collectionItems (h : Heap) (c : Collection) : List Value :=
  match h.collection c.id with
  | .items xs => xs.toList
  | .entries m => m.values

/-- The number of elements of a collection. -/
def collectionSize (h : Heap) (c : Collection) : Nat :=
  match h.collection c.id with
  | .items xs => xs.size
  | .entries m => m.size

/-- Changes the entries of a map. -/
def modifyMap (h : Heap) (id : Nat) (f : KeyedMap → KeyedMap) : Heap :=
  { h with maps := h.maps.modify id f }

def insertInMap (h : Heap) (id : Nat) (k : KeyImage) (key value : Value) : Heap :=
  h.modifyMap id fun m => (m.insert k key value).2

/-- Settles a future and queues its continuations; tells whether it was open. -/
def settle (h : Heap) (id : Nat) (s : Settlement) : Bool × Heap :=
  match (h.future id).settle? s with
  | none => (false, h)
  | some (f, ks) =>
    (true, { h with
      futures := h.futures.setIfInBounds id f
      jobs := h.jobs ++ ks.map fun k => .continuation k s })

/-- Registers a continuation; it is queued at once if the future has settled. -/
def onSettle (h : Heap) (id : Nat) (k : Continuation) : Heap :=
  match (h.future id).onSettle k with
  | (f, none) => { h with futures := h.futures.setIfInBounds id f }
  | (_, some s) => { h with jobs := h.jobs ++ [.continuation k s] }

end Heap
end ScriptEngine
