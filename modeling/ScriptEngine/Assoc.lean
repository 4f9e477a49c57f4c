/-!
# Association lists

Finite maps from names to values as lists of pairs.  A name has one entry; a new entry comes first.

* `find?_insert`, `find?_erase`: what a name stands for after an insertion or a removal.
-/

namespace ScriptEngine

/-- A finite map from names. -/
structure Assoc (α : Type) where
  entries : List (String × α)
  deriving Repr

namespace Assoc

variable {α : Type}

/-- The map without entries. -/
def empty : Assoc α := ⟨[]⟩

instance : Inhabited (Assoc α) := ⟨empty⟩

instance : EmptyCollection (Assoc α) := ⟨empty⟩

def find? (m : Assoc α) (name : String) : Option α := m.entries.lookup name

def contains (m : Assoc α) (name : String) : Bool := (m.find? name).isSome

/-- The number of names with a value. -/
def size (m : Assoc α) : Nat := m.entries.length

/-- Gives a name that has a value a new one. -/
def replaceIn (name : String) (a : α) : List (String × α) → List (String × α)
  | [] => []
  | (n, b) :: rest => if name == n then (n, a) :: rest else (n, b) :: replaceIn name a rest

/-- Gives a name a value. -/
def insert (m : Assoc α) (name : String) (a : α) : Assoc α :=
  if m.contains name then ⟨replaceIn name a m.entries⟩ else ⟨(name, a) :: m.entries⟩

/-- Takes the value of a name away. -/
def erase (m : Assoc α) (name : String) : Assoc α := ⟨m.entries.filter (·.1 != name)⟩

/-- The map of a list of pairs; of two pairs for a name the later one counts. -/
def ofList (entries : List (String × α)) : Assoc α :=
  entries.foldl (fun m e => m.insert e.1 e.2) empty

@[simp] theorem find?_empty (name : String) : (empty : Assoc α).find? name = none := rfl

theorem lookup_replaceIn (name other : String) (a : α) (entries : List (String × α)) :
    (replaceIn name a entries).lookup other =
      if name = other then (entries.lookup other).map (fun _ => a) else entries.lookup other := by
  induction entries with
  | nil => simp [replaceIn]
  | cons e rest ih =>
    obtain ⟨n, b⟩ := e
    by_cases hn : name = n
    · subst hn
      by_cases ho : name = other
      · subst ho
        simp [replaceIn]
      · simp [replaceIn, List.lookup_cons, ho, beq_false_of_ne (Ne.symm ho)]
    · by_cases ho : other = n
      · subst ho
        simp [replaceIn, hn]
      · simp [replaceIn, hn, List.lookup_cons, beq_false_of_ne ho, ih]

/-- After an insertion the name has the new value and every other name its old one. -/
theorem find?_insert (m : Assoc α) (name other : String) (a : α) :
    (m.insert name a).find? other = if name = other then some a else m.find? other := by
  unfold insert
  by_cases hc : m.contains name
  · rw [if_pos hc]
    simp only [find?, lookup_replaceIn]
    by_cases ho : name = other
    · subst ho
      obtain ⟨b, hb⟩ := Option.isSome_iff_exists.1 hc
      have hb' : m.entries.lookup name = some b := hb
      simp [hb']
    · simp [ho]
  · rw [if_neg hc]
    by_cases ho : name = other
    · subst ho
      simp [find?]
    · simp [find?, List.lookup_cons, ho, beq_false_of_ne (Ne.symm ho)]

/-- After a removal the name has no value and every other name its old one. -/
theorem find?_erase (m : Assoc α) (name other : String) :
    (m.erase name).find? other = if name = other then none else m.find? other := by
  unfold erase find?
  induction m.entries with
  | nil => simp
  | cons e rest ih =>
    obtain ⟨n, a⟩ := e
    by_cases hn : n = name
    · subst hn
      by_cases ho : n = other
      · simpa [ho] using ih
      · simp [ih, List.lookup_cons, ho, beq_false_of_ne (Ne.symm ho)]
    · by_cases ho : other = n
      · subst ho
        simp [hn, Ne.symm hn]
      · simp [hn, ih, List.lookup_cons, beq_false_of_ne ho]

end Assoc
end ScriptEngine
