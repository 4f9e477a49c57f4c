import ScriptEngine.Decimal.Text
import ScriptEngine.Heap.Basic

/-!
# The text, the identity and the equality of values

* `Heap.display` writes a value without running any code of the program.
* `Heap.equals` is the equality of the language: numbers compare across their types, arrays and
  records by their contents, all else by identity.
* `Heap.key` is what a map compares of a key.

Values can contain themselves through the heap, so these functions descend at most as deep as there
are things in the heap: a value that does not contain itself is never nested deeper.
-/

namespace ScriptEngine

/-- The digits of a number to the base sixteen. -/
def hexText (n : Nat) : String := String.ofList (Nat.toDigits 16 n)

/-- The address that stands for an instance in texts. -/
def addressText (id : Nat) : String := hexText (0x7f0000000000 + 16 * id)

namespace Heap

/-- An upper limit for how deep a value that does not contain itself can be nested. -/
def depthLimit (h : Heap) : Nat :=
  h.arrays.size + h.maps.size + h.objects.size + h.collections.size + 1

/-- The text of a map from the texts of its keys and values. -/
def entriesText (entries : List (String × String)) : String :=
  "\x7b" ++ ", ".intercalate (entries.map fun e => e.1 ++ ": " ++ e.2) ++ "\x7d"

/-- The text of a sequence from the texts of its elements. -/
def itemsText (kind : CollectionKind) (items : List String) : String :=
  let inner := ", ".intercalate items
  match kind with
  | .set => "\x7b" ++ inner ++ "\x7d"
  | _ => "[" ++ inner ++ "]"

/-- The text of a value, down to a depth. -/
def displayWithin (h : Heap) : Nat → Value → String
  | 0, _ => ""
  | n + 1, v =>
    match v with
    | .nil => "nil"
    | .bool b => if b then "true" else "false"
    | .int i => toString i
    | .float x => Decimal.Layout.value.write x
    | .str s => s
    | .array id => itemsText .list ((h.array id).toList.map (displayWithin h n))
    | .map id =>
      entriesText ((h.map id).entries.toList.map fun e =>
        (displayWithin h n e.1, displayWithin h n e.2))
    | .function _ f => s!"<function {f.name}>"
    | .native f => s!"<builtin {f.name}>"
    | .instanceMethod _ _ _ name | .staticMethod _ _ name | .builtinMethod _ _ name =>
      s!"<method {name}>"
    | .classDef c => s!"class {c.name}"
    | .interfaceDef i => s!"interface {i.name}"
    | .object o =>
      match o.constant with
      | some (name, _) => s!"{o.cls.name}.{name}"
      | none =>
        match o.cls.kind with
        | .record =>
          let parts := o.cls.own.components.map fun c =>
            c.name ++ "=" ++ displayWithin h n ((h.field? o c.name).getD .nil)
          o.cls.name ++ "(" ++ ", ".intercalate parts ++ ")"
        | _ => o.cls.name ++ "@" ++ addressText o.id
    | .collection c =>
      match h.collection c.id with
      | .items xs => itemsText c.kind (xs.toList.map (displayWithin h n))
      | .entries m =>
        entriesText (m.entries.toList.map fun e => (displayWithin h n e.1, displayWithin h n e.2))
    | .thread id => s!"Thread#{id + 1}"
    | .channel id _ =>
      let c := h.channel id
      let closed := if c.closed then "true" else "false"
      "Channel\x7blen=" ++ toString c.size ++ ", closed=" ++ closed ++ "\x7d"
    | .future id _ => (h.future id).text
    | .module m => s!"module {m.name}"

def display (h : Heap) (v : Value) : String := h.displayWithin h.depthLimit v

/-- Whether two lists agree in length and, place by place, in a test. -/
def allPairs (test : Value → Value → Bool) : List Value → List Value → Bool
  | [], [] => true
  | a :: as, b :: bs => test a b && allPairs test as bs
  | _, _ => false

/-- Whether two values are equal, down to a depth. -/
def equalsWithin (h : Heap) : Nat → Value → Value → Bool
  | 0, _, _ => false
  | n + 1, a, b =>
    match a, b with
    | .nil, .nil => true
    | .bool a, .bool b => a == b
    | .int a, .int b => a == b
    | .float a, .float b => a.equal b
    | .int a, .float b => (Decimal.Double.ofInt64 a).equal b
    | .float a, .int b => (Decimal.Double.ofInt64 b).equal a
    | .str a, .str b => a == b
    | .array a, .array b =>
      a == b || allPairs (equalsWithin h n) (h.array a).toList (h.array b).toList
    | .map a, .map b => a == b
    | .object a, .object b =>
      a.id == b.id ||
        (a.cls.kind == .record && a.cls.id == b.cls.id &&
          a.cls.own.components.all fun c =>
            match h.field? a c.name, h.field? b c.name with
            | some x, some y => equalsWithin h n x y
            | _, _ => false)
    | .function a _, .function b _ => a == b
    | .native a, .native b => a == b
    | .classDef a, .classDef b => a.id == b.id
    | .interfaceDef a, .interfaceDef b => a.own.id == b.own.id
    | .collection a, .collection b => a.id == b.id
    | .thread a, .thread b => a == b
    | .channel a _, .channel b _ => a == b
    | .future a _, .future b _ => a == b
    | .module a, .module b => a == b
    | _, _ => false

def equals (h : Heap) (a b : Value) : Bool := h.equalsWithin h.depthLimit a b

/-- What a map compares of a key: an integral float counts as the integer, and a record as its
text. -/
def key (h : Heap) : Value → KeyImage
  | .nil => .nil
  | .bool b => .bool b
  | .int i => .int i
  | .float x => if x.isInteger then .int x.toInt64 else .float x
  | .str s => .str s
  | .object o =>
    if o.cls.kind == .record then .str (h.display (.object o)) else .identity (.object o.id)
  | .array id => .identity (.array id)
  | .map id => .identity (.map id)
  | .function id _ => .identity (.function id)
  | .native f => .identity (.native f)
  | .instanceMethod id _ _ _ | .staticMethod id _ _ | .builtinMethod id _ _ =>
    .identity (.method id)
  | .classDef c => .identity (.cls c.id)
  | .interfaceDef i => .identity (.interface i.own.id)
  | .collection c => .identity (.collection c.id)
  | .thread id => .identity (.thread id)
  | .channel id _ => .identity (.channel id)
  | .future id _ => .identity (.future id)
  | .module m => .identity (.module m)

/-- The message of a thrown value: that of an object with one, otherwise the text of the value. -/
def exceptionMessage (h : Heap) (e : Exception) : String :=
  match e.value with
  | .object o =>
    match h.field? o "message" with
    | some m => h.display m
    | none => h.display e.value
  | v => h.display v

end Heap
end ScriptEngine
