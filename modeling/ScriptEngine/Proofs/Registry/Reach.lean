import Mathlib.Data.Set.Basic
import ScriptEngine.Heap.Registry

/-!
# The interfaces in reach of a type

`Interface.Reaches` follows the interfaces that an interface extends, to any depth.
`implementedInterfaces` computes what a class reaches by a search that leaves out every number it has
seen before.  So it finds everything, as long as interfaces of one number are the same
(`mem_implementedInterfaces`).

The search adds an interface before it looks at those it extends.  At any moment what it has seen is
closed under extension, up to the interfaces that it is still busy with.
-/

namespace ScriptEngine

namespace Interface

/-- An interface is another one, or it extends one that reaches it. -/
inductive Reaches : Interface → Interface → Prop
  | refl (i : Interface) : Reaches i i
  | step {i p j : Interface} : p ∈ i.parents → Reaches p j → Reaches i j

theorem Reaches.trans {i j k : Interface}
    (hij : i.Reaches j) (hjk : j.Reaches k) :
    i.Reaches k := by
  induction hij with
  | refl =>
      exact hjk
  | step hp _ ih =>
      exact .step hp (ih hjk)

/-- Interfaces of one number are the same. -/
def Coherent (u : Set Interface) : Prop :=
  ∀ i ∈ u, ∀ j ∈ u, i.own.id = j.own.id → i = j

/-- What is extended has been seen too, but for interfaces that the search is busy with. -/
def ClosedBut (busy : Set Interface) (seen : List Interface) : Prop :=
  ∀ i ∈ seen, i ∈ busy ∨ ∀ p ∈ i.parents, p ∈ seen

theorem ClosedBut.mem_of_reaches {seen : List Interface} {i j : Interface}
    (hseen : ClosedBut ∅ seen) (hi : i ∈ seen) (hj : i.Reaches j) :
    j ∈ seen := by
  induction hj with
  | refl =>
      exact hi
  | step hp _ ih =>
      exact ih (((hseen _ hi).resolve_left id) _ hp)

/-- While its parents are searched, a search is busy with the interface itself. -/
theorem ClosedBut.begin {busy : Set Interface} {seen : List Interface}
    (h : ClosedBut busy seen) (i : Interface) :
    ClosedBut (insert i busy) (seen ++ [i]) := by
  intro j hj
  rcases List.mem_append.mp hj with hj | hj
  · rcases h j hj with hj | hj
    · exact .inl (.inr hj)
    · exact .inr fun p hp => List.mem_append_left _ (hj p hp)
  · exact .inl (.inl (List.mem_singleton.mp hj))

section Search

variable {u : Set Interface}

/-- A search finds the interfaces it is given, keeps what it has seen, and finishes what it begins. -/
def Finds (u : Set Interface) (seen found : List Interface) (is : List Interface) : Prop :=
  (∀ i ∈ is, i ∈ found) ∧ seen ⊆ found ∧ (∀ i ∈ found, i ∈ u) ∧
    ∀ busy, ClosedBut busy seen → ClosedBut busy found

mutual

theorem gatherInto_finds (hu : Coherent u) (seen : List Interface) (i : Interface)
    (hseen : ∀ j ∈ seen, j ∈ u) (hi : ∀ j, i.Reaches j → j ∈ u) :
    Finds u seen (gatherInto seen i) [i] := by
  obtain ⟨o, ps⟩ := i
  have hnew : ∀ j ∈ seen ++ [mk o ps], j ∈ u := by
    intro j hj
    rcases List.mem_append.mp hj with hj | hj
    · exact hseen j hj
    · exact hi j (List.mem_singleton.mp hj ▸ .refl _)
  unfold gatherInto
  split
  case isTrue hold =>
    obtain ⟨j, hj, hid⟩ := List.any_eq_true.mp hold
    have hsame : j = mk o ps := hu j (hseen j hj) _ (hi _ (.refl _)) (beq_iff_eq.mp hid)
    refine ⟨fun k hk => ?_, List.Subset.refl _, hseen, fun _ h => h⟩
    rw [List.mem_singleton.mp hk, ← hsame]
    exact hj
  case isFalse =>
    obtain ⟨hparents, hkept, hin, hclosed⟩ := collectAll_finds hu (seen ++ [mk o ps]) ps hnew
      fun p hp j hj => hi j (.step hp hj)
    have hself : mk o ps ∈ collectAll (seen ++ [mk o ps]) ps := hkept (by simp)
    refine ⟨fun k hk => List.mem_singleton.mp hk ▸ hself,
      fun j hj => hkept (List.mem_append_left _ hj), hin, fun busy hbusy => ?_⟩
    intro j hj
    rcases hclosed _ (hbusy.begin (mk o ps)) j hj with (rfl | hj) | hj
    · exact .inr hparents
    · exact .inl hj
    · exact .inr hj

theorem collectAll_finds (hu : Coherent u) (seen is : List Interface)
    (hseen : ∀ j ∈ seen, j ∈ u) (his : ∀ i ∈ is, ∀ j, i.Reaches j → j ∈ u) :
    Finds u seen (collectAll seen is) is := by
  cases is with
  | nil =>
      exact ⟨fun i hi => (nomatch hi), List.Subset.refl _, hseen, fun _ h => h⟩
  | cons i rest =>
      obtain ⟨hfirst, hkept, hin, hclosed⟩ := gatherInto_finds hu seen i hseen
        (his i List.mem_cons_self)
      obtain ⟨hrest, hkept', hin', hclosed'⟩ := collectAll_finds hu (gatherInto seen i) rest hin
        fun j hj => his j (List.mem_cons_of_mem _ hj)
      refine ⟨fun j hj => ?_, fun j hj => hkept' (hkept hj), hin',
        fun busy hbusy => hclosed' busy (hclosed busy hbusy)⟩
      rcases List.mem_cons.mp hj with rfl | hj
      · exact hkept' (hfirst _ (List.mem_singleton.mpr rfl))
      · exact hrest j hj

end

end Search

end Interface

theorem mem_bodiesNamed_iff
    {ms : List Method} {name : String} {m : Method} :
    m ∈ bodiesNamed ms name ↔ m ∈ ms ∧ m.name = name ∧ m.isAbstract = false := by
  rw [bodiesNamed, methodsNamed, List.mem_filter, List.mem_filter, beq_iff_eq, Bool.not_eq_true',
    and_assoc]

namespace ClassDef

/-- A class reaches what an interface reaches that the class or an ancestor implements. -/
def Reaches (c : ClassDef) (j : Interface) : Prop :=
  ∃ l ∈ c.layers, ∃ i ∈ l.interfaces, i.Reaches j

/-- The search goes by what each layer implements. -/
theorem implementedInterfaces_congr {c c' : ClassDef}
    (h : c'.layers.map (·.interfaces) = c.layers.map (·.interfaces)) :
    c'.implementedInterfaces = c.implementedInterfaces := by
  have hfold (ls : List ClassLayer) :
      ls.foldl (fun seen l => Interface.collectAll seen l.interfaces) [] =
        (ls.map (·.interfaces)).foldl (fun seen is => Interface.collectAll seen is) [] := by
    rw [List.foldl_map]
  rw [implementedInterfaces, implementedInterfaces, hfold, hfold, h]

/-- Among coherent interfaces the search finds all that a class reaches. -/
theorem mem_implementedInterfaces {c : ClassDef} {j : Interface}
    (hc : Interface.Coherent {i | c.Reaches i}) (hj : c.Reaches j) :
    j ∈ c.implementedInterfaces := by
  have hfold (ls : List ClassLayer) (seen : List Interface) (hls : ∀ l ∈ ls, l ∈ c.layers)
      (hseen : ∀ i ∈ seen, c.Reaches i) :
      Interface.Finds {i | c.Reaches i} seen
        (ls.foldl (fun seen l => Interface.collectAll seen l.interfaces) seen)
        (ls.flatMap (·.interfaces)) := by
    induction ls generalizing seen with
    | nil =>
        exact ⟨fun i hi => (nomatch hi), List.Subset.refl _, hseen, fun _ h => h⟩
    | cons l rest ih =>
        have hl := hls l List.mem_cons_self
        obtain ⟨hfirst, hkept, hin, hclosed⟩ := Interface.collectAll_finds hc seen l.interfaces
          hseen fun i hi j hij => ⟨l, hl, i, hi, hij⟩
        obtain ⟨hrest, hkept', hin', hclosed'⟩ :=
          ih (Interface.collectAll seen l.interfaces)
            (fun k hk => hls k (List.mem_cons_of_mem _ hk)) hin
        refine ⟨fun i hi => ?_, fun i hi => hkept' (hkept hi), hin',
          fun busy hbusy => hclosed' busy (hclosed busy hbusy)⟩
        rw [List.flatMap_cons] at hi
        rcases List.mem_append.mp hi with hi | hi
        · exact hkept' (hfirst i hi)
        · exact hrest i hi
  obtain ⟨hfound, -, -, hclosed⟩ := hfold c.layers [] (fun _ h => h) fun i hi => nomatch hi
  obtain ⟨l, hl, i, hi, hij⟩ := hj
  have hempty : Interface.ClosedBut ∅ [] := fun i hi => nomatch hi
  exact (hclosed ∅ hempty).mem_of_reaches (hfound i (List.mem_flatMap.mpr ⟨l, hl, hi⟩)) hij

end ClassDef

/-- What a declared type reaches; an interface reaches itself. -/
def TypeDef.Reaches : TypeDef → Interface → Prop
  | cls c => c.Reaches
  | interface i => i.Reaches

end ScriptEngine
