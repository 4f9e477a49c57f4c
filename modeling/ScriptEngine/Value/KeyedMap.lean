import ScriptEngine.Value.Basic
import Std.Data.HashMap

/-!
# Maps with keys in order of insertion

A `KeyImage` is what two keys of a map must share to be the same key: equal numbers share it
whatever their type, and what has an identity has its own.  A `KeyedMap` keeps its entries in the
order of their first insertion, and an index from the key of each entry to its slot.
-/

namespace ScriptEngine

/-- What has an identity. -/
inductive Identity
  | array (id : Nat)
  | map (id : Nat)
  | function (id : Nat)
  | native (f : Native)
  | method (id : Nat)
  | cls (id : Nat)
  | interface (id : Nat)
  | object (id : Nat)
  | collection (id : Nat)
  | thread (id : Nat)
  | channel (id : Nat)
  | future (id : Nat)
  | module (m : Module)
  deriving Repr, DecidableEq, Hashable, Inhabited

/-- What a map compares of a key. -/
inductive KeyImage
  | nil
  | bool (b : Bool)
  | int (i : Int64)
  | float (x : Decimal.Double)
  | str (s : String)
  | identity (i : Identity)
  deriving DecidableEq, Hashable, Inhabited

/-- A map from keys to values that keeps the order of insertion. -/
structure KeyedMap where
  entries : Array (Value × Value)
  index : Std.HashMap KeyImage Nat

namespace KeyedMap

/-- The map without entries. -/
def empty : KeyedMap := ⟨#[], ∅⟩

instance : Inhabited KeyedMap := ⟨empty⟩

def size (m : KeyedMap) : Nat := m.entries.size

def get? (m : KeyedMap) (k : KeyImage) : Option Value :=
  (m.index[k]?).bind fun slot => (m.entries[slot]?).map (·.2)

def contains (m : KeyedMap) (k : KeyImage) : Bool := m.index.contains k

/-- Gives a key a value and tells the one it had.  A new key comes last; an old one keeps its place
and the spelling it was first inserted with. -/
def insert (m : KeyedMap) (k : KeyImage) (key value : Value) : Option Value × KeyedMap :=
  match m.index[k]? with
  | some slot =>
    ((m.entries[slot]?).map (·.2),
      { m with entries := m.entries.modify slot fun e => (e.1, value) })
  | none =>
    let slot := m.entries.size
    (none, ⟨m.entries.push (key, value), m.index.insert k slot⟩)

/-- Takes a key out and tells the value it had. -/
def erase (m : KeyedMap) (k : KeyImage) : Option Value × KeyedMap :=
  match m.index[k]? with
  | some slot =>
    ((m.entries[slot]?).map (·.2),
      ⟨m.entries.eraseIdxIfInBounds slot,
        (m.index.erase k).map fun _ i => if slot < i then i - 1 else i⟩)
  | none => (none, m)

def keys (m : KeyedMap) : List Value := m.entries.toList.map (·.1)

def values (m : KeyedMap) : List Value := m.entries.toList.map (·.2)

end KeyedMap
end ScriptEngine
