import ScriptEngine.Assoc
import ScriptEngine.Object.Class

/-!
# The type registry

The types that a program has declared, by name, in two tables: one of classes, enums and records, and
one of interfaces.

A name is meant to stand for one type.  To register a type takes two steps: its name is taken out of
the other table, and then the type is put into its own.  There is no lock over both tables.
-/

namespace ScriptEngine

/-- A declared type. -/
inductive TypeDef
  | cls (c : ClassDef)
  | interface (i : Interface)

def TypeDef.name : TypeDef → String
  | cls c => c.name
  | interface i => i.name

/-- The declared types by name. -/
structure Registry where
  classes : Assoc ClassDef
  interfaces : Assoc Interface

namespace Registry

instance : EmptyCollection Registry := ⟨⟨∅, ∅⟩⟩

instance : Inhabited Registry := ⟨∅⟩

def cls? (r : Registry) (name : String) : Option ClassDef := r.classes.find? name

def interface? (r : Registry) (name : String) : Option Interface := r.interfaces.find? name

def contains (r : Registry) (name : String) : Bool :=
  r.classes.contains name || r.interfaces.contains name

/-- The registered types with their names. -/
def entries (r : Registry) : List (String × TypeDef) :=
  r.classes.entries.map (fun e => (e.1, .cls e.2)) ++
    r.interfaces.entries.map fun e => (e.1, .interface e.2)

/-- The type that a name stands for; a class comes before an interface. -/
def find? (r : Registry) (name : String) : Option TypeDef :=
  match r.cls? name with
  | some c => some (.cls c)
  | none => (r.interface? name).map .interface

/-- The first step of registering a type: its name is no longer one of the other table. -/
def vacate (r : Registry) : TypeDef → Registry
  | .cls c => { r with interfaces := r.interfaces.erase c.name }
  | .interface i => { r with classes := r.classes.erase i.name }

/-- The second step: its name stands for the type. -/
def enter (r : Registry) : TypeDef → Registry
  | .cls c => { r with classes := r.classes.insert c.name c }
  | .interface i => { r with interfaces := r.interfaces.insert i.name i }

/-- Registers a type, whatever its name stood for. -/
def put (r : Registry) (t : TypeDef) : Registry := (r.vacate t).enter t

/-- Whether a type is another, inherits from it or implements it. -/
def isSubtype (r : Registry) (sub sup : String) : Bool :=
  sub == sup ||
    match r.find? sub with
    | some (.cls c) => c.isA sup
    | some (.interface i) => i.extendsName sup
    | none => false

variable {r : Registry} {name : String}

theorem find?_of_cls?
    {c : ClassDef} (hc : r.cls? name = some c) :
    r.find? name = some (.cls c) := by
  rw [find?, hc]

/-- A name is looked up in one of the tables. -/
theorem cls?_or_interface?_of_find?
    {t : TypeDef} (ht : r.find? name = some t) :
    (∃ c, t = .cls c ∧ r.cls? name = some c) ∨ ∃ i, t = .interface i ∧ r.interface? name = some i := by
  unfold find? at ht
  cases hc : r.cls? name with
  | some c =>
      rw [hc] at ht
      cases ht
      exact .inl ⟨c, rfl, rfl⟩
  | none =>
      rw [hc] at ht
      obtain ⟨i, hi, rfl⟩ := Option.map_eq_some_iff.mp ht
      exact .inr ⟨i, rfl, hi⟩

theorem contains_iff :
    r.contains name = true ↔ ∃ t, r.find? name = some t := by
  rw [← Option.isSome_iff_exists]
  simp only [contains, Assoc.contains, find?, cls?, interface?]
  cases r.classes.find? name with
  | some c =>
      simp
  | none =>
      simp

/-- A type is registered under its name, in its own table only, and no other name is touched. -/
theorem cls?_put
    (r : Registry) (t : TypeDef) (name : String) :
    (r.put t).cls? name =
      if t.name = name then
        match t with
        | .cls c => some c
        | .interface _ => none
      else r.cls? name := by
  cases t with
  | cls c =>
      exact Assoc.find?_insert r.classes c.name name c
  | interface i =>
      exact Assoc.find?_erase r.classes i.name name

theorem interface?_put
    (r : Registry) (t : TypeDef) (name : String) :
    (r.put t).interface? name =
      if t.name = name then
        match t with
        | .cls _ => none
        | .interface i => some i
      else r.interface? name := by
  cases t with
  | cls c =>
      exact Assoc.find?_erase r.interfaces c.name name
  | interface i =>
      exact Assoc.find?_insert r.interfaces i.name name i

theorem find?_put
    (r : Registry) (t : TypeDef) (name : String) :
    (r.put t).find? name = if t.name = name then some t else r.find? name := by
  unfold find?
  rw [cls?_put, interface?_put]
  by_cases hname : t.name = name
  · cases t <;> simp [hname]
  · simp [hname]

end Registry
end ScriptEngine
