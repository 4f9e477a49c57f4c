import ScriptEngine.Builtin.Arrays
import ScriptEngine.Builtin.Maps

/-!
# Collections

`List`, `Set`, `Deque` and `Map` with type arguments check every element before they take it;
without type arguments they take any.  Sets take no element twice.
-/

namespace ScriptEngine
namespace Builtin

/-- The type of a collection as its faults name it. -/
def collectionTypeText (c : Collection) : String :=
  if c.typeArgs.isEmpty then c.kind.name
  else c.kind.name ++ "<" ++ ", ".intercalate (c.typeArgs.map TypeExpr.render) ++ ">"

/-- The fault of an element, or of the key of an entry, that a collection does not take. -/
def elementFault? (h : Heap) (c : Collection) (key : Option Value) (v : Value) : Option Cause :=
  let fault (what : String) (t : Option TypeExpr) (v : Value) : Option Cause :=
    match t with
    | some t =>
      if h.conforms v t [] then none
      else some (.type
        s!"{collectionTypeText c} {what}: expected {t.render}, got {h.typeName v}")
    | none => none
  match c.kind with
  | .map =>
    (key.bind fun k => fault "key" c.typeArgs[0]? k) <|> fault "element" c.typeArgs[1]? v
  | _ => fault "element" c.typeArgs[0]? v

/-- Fails unless a collection takes an element. -/
def checkElement (c : Collection) (key : Option Value) (v : Value) : Eval Unit := do
  Eval.unlessFault (elementFault? (← Eval.heap) c key v)

def sequenceItems (h : Heap) (c : Collection) : Array Value :=
  match h.collection c.id with
  | .items xs => xs
  | .entries _ => #[]

def mapEntries (h : Heap) (c : Collection) : KeyedMap :=
  match h.collection c.id with
  | .items _ => .empty
  | .entries m => m

/-- Changes the elements of a sequence. -/
def changeItems (c : Collection) (f : Array Value → Array Value) : Eval Unit :=
  Eval.modify fun h => h.modifyCollection c.id fun
    | .items xs => .items (f xs)
    | .entries m => .entries m

def changeEntries (c : Collection) (f : KeyedMap → KeyedMap) : Eval Unit :=
  Eval.modify fun h => h.modifyCollection c.id fun
    | .items xs => .items xs
    | .entries m => .entries (f m)

/-- Adds an element at the end and tells whether it was new; only sets refuse old ones. -/
def pushItem (c : Collection) (v : Value) : Eval Bool := do
  checkElement c none v
  let isOld ← do
    let h ← Eval.heap
    pure (c.kind == .set && (position? h (sequenceItems h c).toList v).isSome)
  if isOld then pure false
  else
    changeItems c (·.push v)
    pure true

def insertEntry (c : Collection) (key v : Value) : Eval Unit := do
  checkElement c (some key) v
  let k := (← Eval.heap).key key
  changeEntries c fun m => (m.insert k key v).2

/-- Makes a sequence of its elements; a single array gives its elements. -/
def fillSequence (c : Collection) (args : List Value) : Eval Unit := do
  let items ←
    match args with
    | [.array id] => do pure ((← Eval.heap).array id).toList
    | vs => pure vs
  items.forM fun v => do let _ ← pushItem c v

/-- Makes a map of the entries of a map literal. -/
def fillMap (c : Collection) (args : List Value) : Eval Unit := do
  let h ← Eval.heap
  match args with
  | [] => pure ()
  | [.map id] => (h.map id).entries.toList.forM fun e => insertEntry c e.1 e.2
  | [v] => Eval.fault (.mismatch "Map literal for Map()" (h.typeName v))
  | _ => Eval.fault (.arity "0..1" args.length)

def makeCollection (kind : CollectionKind) (typeArgs : List TypeExpr) (args : List Value) :
    Eval Value := do
  let expected := if kind == .map then 2 else 1
  if !typeArgs.isEmpty && typeArgs.length != expected then
    Eval.fault (.type
      s!"{kind.name} expects {expected} type argument(s), got {typeArgs.length}")
  let c ← Eval.change fun h => h.newCollection kind typeArgs
  match kind with
  | .map => fillMap c args
  | _ => fillSequence c args
  pure (.collection c)

/-- Puts an element at a place of a sequence. -/
def insertItem (c : Collection) (args : List Value) : Eval Unit := do
  Eval.ofExcept (takesExactly args 2)
  checkElement c none (argument args 1)
  let h ← Eval.heap
  let size := (sequenceItems h c).size
  match argument args 0 with
  | .int i =>
    if 0 ≤ i.toInt ∧ i.toInt ≤ size then
      changeItems c (·.insertIdxIfInBounds i.toInt.toNat (argument args 1))
    else Eval.fault (.index i size)
  | v => Eval.fault (.mismatch "Int index" (h.typeName v))

/-- The place of a sequence that an argument stands for. -/
def itemPlace (c : Collection) (key : Value) : Eval Nat := do
  let h ← Eval.heap
  Eval.ofExcept (Eval.indexOf h key (sequenceItems h c).size)

/-- The element at a place, or nil. -/
def itemAt (c : Collection) (i : Nat) : Eval Value := do
  pure ((sequenceItems (← Eval.heap) c).getD i .nil)

/-- Takes out the first element that equals a value, and tells whether there was one. -/
def removeItem (c : Collection) (args : List Value) : Eval Bool := do
  Eval.ofExcept (takesExactly args 1)
  let found ← do
    let h ← Eval.heap
    pure (position? h (sequenceItems h c).toList (argument args 0))
  match found with
  | some i => do
    changeItems c (·.eraseIdxIfInBounds i)
    pure true
  | none => pure false

/-- Takes out the element at a place, if there is one. -/
def takeItem (c : Collection) (i : Nat) : Eval Value := do
  let v ← itemAt c i
  changeItems c (·.eraseIdxIfInBounds i)
  pure v

/-- A new collection with the results of a callback for each element. -/
def mapCollection (E : Engine) (c : Collection) (callee : Value) (items : List Value) :
    Eval Value := do
  let target ← Eval.change fun h => h.newCollection c.kind []
  items.zipIdx.forM fun p => do
    let _ ← pushItem target (← callFor E callee p.1 p.2)
  pure (.collection target)

/-- A new collection with the elements for which a callback says yes. -/
def filterCollection (E : Engine) (c : Collection) (callee : Value) (items : List Value) :
    Eval Value := do
  let target ← Eval.change fun h => h.newCollection c.kind c.typeArgs
  items.zipIdx.forM fun p => do
    if (← callFor E callee p.1 p.2).isTruthy then
      let _ ← pushItem target p.1
  pure (.collection target)

/-- Calls a method of a sequence that calls back or writes elements. -/
def traverseSequence (E : Engine) (c : Collection) (name : String) (args : List Value) :
    Eval Value := do
  let h ← Eval.heap
  let items := (sequenceItems h c).toList
  let callee : Eval Value := Eval.ofExcept (firstCallback h args name)
  match name with
  | "forEach" => do
    visitItems E (← callee) items
    pure .nil
  | "map" => do mapCollection E c (← callee) items
  | "filter" => do filterCollection E c (← callee) items
  | "sort" => do
    Eval.ofExcept (takesBetween args 0 1)
    let sorted ← sortItems (compareItems E args.head?) items
    changeItems c fun _ => sorted.toArray
    pure .nil
  | "toString" => do pure (.str (← E.text (.collection c)))
  | _ => Eval.fault (.missingMember c.kind.name name)

/-- Calls a method of a list, set or deque. -/
def callSequence (E : Engine) (c : Collection) (name : String) (args : List Value) :
    Eval Value := do
  match name with
  | "add" | "push" | "addLast" =>
    if c.kind == .set then do
      Eval.ofExcept (takesExactly args 1)
      pure (.bool (← pushItem c (argument args 0)))
    else do
      args.forM fun v => do let _ ← pushItem c v
      pure .nil
  | "addFirst" => do
    Eval.ofExcept (takesExactly args 1)
    checkElement c none (argument args 0)
    changeItems c (prepend [argument args 0])
    pure .nil
  | "get" => do
    Eval.ofExcept (takesExactly args 1)
    itemAt c (← itemPlace c (argument args 0))
  | "set" => do
    Eval.ofExcept (takesExactly args 2)
    checkElement c (some (argument args 0)) (argument args 1)
    let i ← itemPlace c (argument args 0)
    let old ← itemAt c i
    changeItems c (·.setIfInBounds i (argument args 1))
    pure old
  | "insert" => do
    insertItem c args
    pure .nil
  | "remove" => do pure (.bool (← removeItem c args))
  | "removeAt" => do
    Eval.ofExcept (takesExactly args 1)
    takeItem c (← itemPlace c (argument args 0))
  | "removeFirst" => takeItem c 0
  | "removeLast" => do takeItem c ((sequenceItems (← Eval.heap) c).size - 1)
  | "peekFirst" => itemAt c 0
  | "peekLast" => do itemAt c ((sequenceItems (← Eval.heap) c).size - 1)
  | "contains" => do
    let h ← Eval.heap
    pure (.bool (position? h (sequenceItems h c).toList (argument args 0)).isSome)
  | "indexOf" => do
    let h ← Eval.heap
    pure (place (position? h (sequenceItems h c).toList (argument args 0)))
  | "size" | "length" => do pure (count (sequenceItems (← Eval.heap) c).size)
  | "isEmpty" => do pure (.bool (sequenceItems (← Eval.heap) c).isEmpty)
  | "clear" => do
    changeItems c fun _ => #[]
    pure .nil
  | "toArray" | "asArray" => do Eval.makeArray (sequenceItems (← Eval.heap) c).toList
  | _ => traverseSequence E c name args

def callMapCollection (E : Engine) (c : Collection) (name : String) (args : List Value) :
    Eval Value := do
  match name with
  | "set" | "put" => do
    Eval.ofExcept (takesExactly args 2)
    insertEntry c (argument args 0) (argument args 1)
    pure .nil
  | "remove" | "delete" => do
    Eval.ofExcept (takesExactly args 1)
    let h ← Eval.heap
    let k := h.key (argument args 0)
    let found := (mapEntries h c).get? k
    changeEntries c fun m => (m.erase k).2
    pure (found.getD .nil)
  | "clear" => do
    changeEntries c fun _ => .empty
    pure .nil
  | "forEach" => do
    visitEntries E args (mapEntries (← Eval.heap) c).entries.toList
    pure .nil
  | "toString" => do pure (.str (← E.text (.collection c)))
  | _ => do
    let h ← Eval.heap
    match ← Eval.ofExcept (queryMap h (mapEntries h c) name args) with
    | some a => a.toValue
    | none => Eval.fault (.missingMember "Map" name)

def callCollection (E : Engine) (c : Collection) (name : String) (args : List Value) :
    Eval Value :=
  if !(collectionMethods c.kind).contains name then Eval.fault (.missingMember c.kind.name name)
  else
    match c.kind with
    | .map => callMapCollection E c name args
    | _ => callSequence E c name args

end Builtin
end ScriptEngine
