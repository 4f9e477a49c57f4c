import ScriptEngine.Proofs.Evaluation.Ascent
import ScriptEngine.Proofs.Registry.Reach
import ScriptEngine.Proofs.Typing.Nominal

/-!
# The order and the closure of interfaces

**Order.** `Interface.inOrder` writes an interface before those it extends, each followed by its own,
with no thought of what was written before.  An interface that is reached in two ways is written twice.
`implementedInterfaces` leaves the second one out.  For a search that makes no difference, as long as
interfaces of one number are the same: what is first in the one is first in the other
(`findSome?_implementedInterfaces`).

The search may skip an interface it has seen only because all below it was seen too.  It is busy with
those above the one at hand, and none of them is below it.

**Closure.** What is collected is added behind what was seen, and only under a new number.  So no
number occurs twice, whatever the interfaces are (`nodup_implementedInterfaces`).  Among coherent
interfaces the collection is what the class reaches (`mem_implementedInterfaces_iff`).  So the names
that `isA` accepts, going along every way however often an interface is reached, are those of the
lineage and of the collection, and the methods that can be called are those declared in one of the two
(`implementedInterfaces_closed`).
-/

namespace ScriptEngine

namespace Interface

mutual

/-- An interface and what it extends, depth first, as often as it is reached. -/
def inOrder : Interface → List Interface
  | mk o ps => mk o ps :: allInOrder ps

def allInOrder : List Interface → List Interface
  | [] => []
  | i :: rest => inOrder i ++ allInOrder rest

end

mutual

theorem mem_inOrder_iff {j : Interface} :
    (i : Interface) → (j ∈ inOrder i ↔ i.Reaches j)
  | mk o ps => by
      rw [inOrder, List.mem_cons, mem_allInOrder_iff ps]
      constructor
      · rintro (rfl | ⟨p, hp, hreaches⟩)
        · exact .refl _
        · exact .step hp hreaches
      · rintro (_ | ⟨hp, hreaches⟩)
        · exact .inl rfl
        · exact .inr ⟨_, hp, hreaches⟩

theorem mem_allInOrder_iff {j : Interface} :
    (is : List Interface) → (j ∈ allInOrder is ↔ ∃ i ∈ is, i.Reaches j)
  | [] => by
      simp [allInOrder]
  | i :: rest => by
      simp [allInOrder, mem_inOrder_iff i, mem_allInOrder_iff rest]

end

/-! ### Nothing is below itself -/

theorem Reaches.sizeOf_le {i j : Interface}
    (h : i.Reaches j) :
    sizeOf j ≤ sizeOf i := by
  induction h with
  | refl =>
      exact Nat.le_refl _
  | @step i p j hp _ ih =>
      obtain ⟨o, ps⟩ := i
      have hlt : sizeOf p < sizeOf ps := List.sizeOf_lt_of_mem hp
      have hmk : sizeOf (mk o ps) = 1 + sizeOf o + sizeOf ps := by simp
      omega

theorem not_reaches_of_mem_parents {i p : Interface}
    (hp : p ∈ i.parents) :
    ¬ p.Reaches i := by
  intro h
  obtain ⟨o, ps⟩ := i
  have hle := h.sizeOf_le
  have hlt : sizeOf p < sizeOf ps := List.sizeOf_lt_of_mem hp
  have hmk : sizeOf (mk o ps) = 1 + sizeOf o + sizeOf ps := by simp
  omega

/-- What is below an interface that was seen was seen too, if the search is busy with none of it. -/
theorem ClosedBut.mem_of_reaches_idle {busy : Set Interface} {seen : List Interface}
    {i j : Interface} (hseen : ClosedBut busy seen) (hi : i ∈ seen) (hidle : ∀ b ∈ busy, ¬ i.Reaches b)
    (hj : i.Reaches j) :
    j ∈ seen := by
  induction hj with
  | refl =>
      exact hi
  | step hp _ ih =>
      have hparents := (hseen _ hi).resolve_left fun hbusy => hidle _ hbusy (.refl _)
      exact ih (hparents _ hp) fun b hb hreaches => hidle b hb (.step hp hreaches)

section Search

variable {u : Set Interface} {β : Type} {f : Interface → Option β}

mutual

theorem findSome?_gatherInto
    (hu : Coherent u) {busy : Set Interface} (seen : List Interface) (hseen : ∀ j ∈ seen, j ∈ u)
    (hclosed : ClosedBut busy seen) :
    (i : Interface) → (∀ j, i.Reaches j → j ∈ u) → (∀ b ∈ busy, ¬ i.Reaches b) →
      (gatherInto seen i).findSome? f = (seen.findSome? f).or ((inOrder i).findSome? f)
  | mk o ps, hi, hidle => by
      unfold gatherInto
      split
      case isTrue hold =>
        obtain ⟨j, hj, hid⟩ := List.any_eq_true.mp hold
        have hsame : j = mk o ps := hu j (hseen j hj) _ (hi _ (.refl _)) (beq_iff_eq.mp hid)
        cases hfirst : seen.findSome? f with
        | some b =>
            rfl
        | none =>
            symm
            rw [Option.none_or, List.findSome?_eq_none_iff]
            intro k hk
            exact List.findSome?_eq_none_iff.mp hfirst k <|
              hclosed.mem_of_reaches_idle (hsame ▸ hj) hidle ((mem_inOrder_iff _).mp hk)
      case isFalse =>
        have hnew : ∀ j ∈ seen ++ [mk o ps], j ∈ u := by
          intro j hj
          rcases List.mem_append.mp hj with hj | hj
          · exact hseen j hj
          · exact hi j (List.mem_singleton.mp hj ▸ .refl _)
        have hidle' : ∀ p ∈ ps, ∀ b ∈ insert (mk o ps) busy, ¬ p.Reaches b := by
          rintro p hp b (rfl | hb) hreaches
          · exact not_reaches_of_mem_parents hp hreaches
          · exact hidle b hb (.step hp hreaches)
        rw [findSome?_collectAll hu _ hnew (hclosed.begin _) ps (fun p hp j hj => hi j (.step hp hj)) hidle',
          inOrder, List.findSome?_append, Option.or_assoc, List.findSome?_singleton]
        cases hself : f (mk o ps) with
        | some b =>
            rw [List.findSome?_cons_of_isSome (by rw [hself]; rfl), hself]
            rfl
        | none =>
            rw [List.findSome?_cons_of_isNone (by rw [hself]; rfl)]
            rfl

theorem findSome?_collectAll
    (hu : Coherent u) {busy : Set Interface} (seen : List Interface) (hseen : ∀ j ∈ seen, j ∈ u)
    (hclosed : ClosedBut busy seen) :
    (is : List Interface) → (∀ i ∈ is, ∀ j, i.Reaches j → j ∈ u) →
      (∀ i ∈ is, ∀ b ∈ busy, ¬ i.Reaches b) →
      (collectAll seen is).findSome? f = (seen.findSome? f).or ((allInOrder is).findSome? f)
  | [], _, _ => by
      rw [collectAll, allInOrder, List.findSome?_nil, Option.or_none]
  | i :: rest, his, hidle => by
      have hi := his i List.mem_cons_self
      obtain ⟨-, -, hin, hkeeps⟩ := gatherInto_finds hu seen i hseen hi
      rw [collectAll, allInOrder, List.findSome?_append,
        findSome?_collectAll hu _ hin (hkeeps busy hclosed) rest
          (fun j hj => his j (List.mem_cons_of_mem _ hj))
          (fun j hj => hidle j (List.mem_cons_of_mem _ hj)),
        findSome?_gatherInto hu seen hseen hclosed i hi (hidle i List.mem_cons_self), Option.or_assoc]

end

end Search

end Interface

namespace ClassDef

variable {c : ClassDef}

/-- The interfaces of a class and its ancestors, the nearest class first, as often as they are
reached. -/
def interfacesInOrder (c : ClassDef) : List Interface :=
  c.layers.flatMap fun l => Interface.allInOrder l.interfaces

theorem mem_interfacesInOrder_iff {j : Interface} :
    j ∈ c.interfacesInOrder ↔ c.Reaches j := by
  simp [interfacesInOrder, Reaches, Interface.mem_allInOrder_iff]

/-- A search among the interfaces finds what is first in order. -/
theorem findSome?_implementedInterfaces
    {β : Type} (f : Interface → Option β) (hc : Interface.Coherent {i | c.Reaches i}) :
    c.implementedInterfaces.findSome? f = c.interfacesInOrder.findSome? f := by
  have hfold (ls : List ClassLayer) (seen : List Interface) (hls : ∀ l ∈ ls, l ∈ c.layers)
      (hseen : ∀ i ∈ seen, c.Reaches i) (hclosed : Interface.ClosedBut ∅ seen) :
      (ls.foldl (fun seen l => Interface.collectAll seen l.interfaces) seen).findSome? f =
        (seen.findSome? f).or
          ((ls.flatMap fun l => Interface.allInOrder l.interfaces).findSome? f) := by
    induction ls generalizing seen with
    | nil =>
        rw [List.foldl_nil, List.flatMap_nil, List.findSome?_nil, Option.or_none]
    | cons l rest ih =>
        have hl : ∀ i ∈ l.interfaces, ∀ j, i.Reaches j → c.Reaches j :=
          fun i hi j hij => ⟨l, hls l List.mem_cons_self, i, hi, hij⟩
        obtain ⟨-, -, hin, hkeeps⟩ := Interface.collectAll_finds hc seen l.interfaces hseen hl
        rw [List.foldl_cons, List.flatMap_cons, List.findSome?_append,
          ih _ (fun k hk => hls k (List.mem_cons_of_mem _ hk)) hin (hkeeps ∅ hclosed),
          Interface.findSome?_collectAll hc seen hseen hclosed l.interfaces hl
            (fun _ _ b hb => absurd hb (Set.notMem_empty b)), Option.or_assoc]
  have hnothing := hfold c.layers [] (fun _ h => h) (fun _ hi => absurd hi List.not_mem_nil)
    fun _ hi => absurd hi List.not_mem_nil
  rwa [List.findSome?_nil, Option.none_or] at hnothing

end ClassDef

/-! ### What is collected -/

namespace Interface

/-- No two interfaces of a list have one number. -/
def Distinct (is : List Interface) : Prop := (is.map (·.own.id)).Nodup

variable {seen : List Interface}

theorem Distinct.concat
    {i : Interface} (h : Distinct seen) (hnew : ¬ seen.any (·.own.id == i.own.id) = true) :
    Distinct (seen ++ [i]) := by
  have hfresh : ∀ n ∈ seen.map (·.own.id), n ≠ i.own.id := by
    rintro n hn rfl
    obtain ⟨j, hj, hid⟩ := List.mem_map.mp hn
    exact hnew (List.any_eq_true.mpr ⟨j, hj, beq_iff_eq.mpr hid⟩)
  rw [Distinct, List.map_append, List.map_singleton, List.nodup_append]
  exact ⟨h, List.nodup_singleton _, fun n hn m hm => List.mem_singleton.mp hm ▸ hfresh n hn⟩

mutual

theorem Distinct.gatherInto
    {seen : List Interface} (h : Distinct seen) :
    (i : Interface) → Distinct (i.gatherInto seen)
  | mk o ps => by
      unfold Interface.gatherInto
      split
      · exact h
      · next hnew =>
          exact (h.concat (i := mk o ps) hnew).collectAll ps

theorem Distinct.collectAll
    {seen : List Interface} (h : Distinct seen) :
    (is : List Interface) → Distinct (Interface.collectAll seen is)
  | [] => h
  | i :: rest => (h.gatherInto i).collectAll rest

end

end Interface

namespace ClassDef

variable {c : ClassDef}

theorem nodup_implementedInterfaces
    (c : ClassDef) :
    Interface.Distinct c.implementedInterfaces := by
  have hfold (ls : List ClassLayer) {seen : List Interface} (hseen : Interface.Distinct seen) :
      Interface.Distinct (ls.foldl (fun seen l => Interface.collectAll seen l.interfaces) seen) := by
    induction ls generalizing seen with
    | nil =>
        exact hseen
    | cons l ls ih =>
        exact ih (hseen.collectAll l.interfaces)
  exact hfold c.layers List.nodup_nil

theorem mem_implementedInterfaces_iff
    (hc : Interface.Coherent {i | c.Reaches i}) {i : Interface} :
    i ∈ c.implementedInterfaces ↔ c.Reaches i :=
  ⟨reaches_of_mem_implementedInterfaces, mem_implementedInterfaces hc⟩

theorem mem_usableMethods_iff
    {name : String} {m : Method} :
    m ∈ c.usableMethods name ↔ m.name = name ∧ m.isAbstract = false ∧
      ((∃ d ∈ c.lineage, m ∈ d.own.methods) ∨
        ∃ i ∈ c.implementedInterfaces, m ∈ i.own.methods) := by
  rw [exists_mem_lineage_iff (P := fun l => m ∈ l.methods)]
  simp only [usableMethods, List.mem_append, List.mem_flatMap, mem_bodiesNamed_iff]
  constructor
  · rintro (⟨l, hl, hm, hname, hbody⟩ | ⟨i, hi, hm, hname, hbody⟩)
    · exact ⟨hname, hbody, .inl ⟨l, hl, hm⟩⟩
    · exact ⟨hname, hbody, .inr ⟨i, hi, hm⟩⟩
  · rintro ⟨hname, hbody, ⟨l, hl, hm⟩ | ⟨i, hi, hm⟩⟩
    · exact .inl ⟨l, hl, hm, hname, hbody⟩
    · exact .inr ⟨i, hi, hm, hname, hbody⟩

/-- Where interfaces of one number are the same, each one in the reach of a class is collected, none
is collected twice, and nothing else is.  A class is what its lineage and the collected interfaces are
called, and has for a name the bodies that these declare. -/
theorem implementedInterfaces_closed
    (hc : Interface.Coherent {i | c.Reaches i}) :
    (∀ i, i ∈ c.implementedInterfaces ↔ c.Reaches i) ∧
      (c.implementedInterfaces.map (·.own.id)).Nodup ∧
      (∀ name, c.isA name = true ↔
        (∃ d ∈ c.lineage, d.name = name) ∨ ∃ i ∈ c.implementedInterfaces, i.name = name) ∧
      ∀ name m, m ∈ c.usableMethods name ↔ m.name = name ∧ m.isAbstract = false ∧
        ((∃ d ∈ c.lineage, m ∈ d.own.methods) ∨
          ∃ i ∈ c.implementedInterfaces, m ∈ i.own.methods) := by
  refine ⟨fun i => mem_implementedInterfaces_iff hc, c.nodup_implementedInterfaces, fun name => ?_,
    fun name m => mem_usableMethods_iff⟩
  rw [isA_iff, GoesBy]
  refine or_congr (exists_mem_lineage_iff (P := fun l => l.name = name)).symm ?_
  exact exists_congr fun i => and_congr_left' (mem_implementedInterfaces_iff hc).symm

/-! ### A diamond that is implemented twice -/

def shown : Interface := .mk ⟨0, "Shown", [], false, [], []⟩ []
def sized : Interface := .mk ⟨1, "Sized", [], false, [], []⟩ [shown]
def coloured : Interface := .mk ⟨2, "Coloured", [], false, [], []⟩ [shown]

/-- A class of things, which have a size and a colour, and below it one that is shown and coloured
anew. -/
def ball : ClassDef :=
  ⟨.plain "Ball" [coloured, shown], [.plain "Thing" [sized, coloured]]⟩

/-- Of six ways up there are three interfaces, each collected at the first way to it. -/
theorem implementedInterfaces_closed_ball :
    Interface.Coherent {i | ball.Reaches i} ∧
      (∀ i, i ∈ ball.implementedInterfaces ↔ ball.Reaches i) ∧
      ball.implementedInterfaces.map (·.own.id) = [2, 0, 1] ∧
      (ball.implementedInterfaces.map (·.own.id)).Nodup ∧ ball.isA "Shown" = true ∧
      ball.isA "Thing" = true := by
  have hreached (i : Interface) (hi : ball.Reaches i) : i ∈ [coloured, shown, sized] := by
    have hlist : ball.interfacesInOrder = [coloured, shown, shown, sized, shown, coloured, shown] := rfl
    rw [← mem_interfacesInOrder_iff, hlist] at hi
    simp only [List.mem_cons] at hi ⊢
    tauto
  have hc : Interface.Coherent {i | ball.Reaches i} := by
    intro i hi j hj hid
    have hids : ([coloured, shown, sized].map (·.own.id)).Nodup := by decide
    exact List.inj_on_of_nodup_map hids (hreached i hi) (hreached j hj) hid
  obtain ⟨hall, honce, hnames, -⟩ := implementedInterfaces_closed hc
  have hshown : shown ∈ ball.implementedInterfaces :=
    (hall shown).mpr ⟨ball.own, List.mem_cons_self, shown, by simp [ball, ClassLayer.plain], .refl _⟩
  refine ⟨hc, hall, rfl, honce, (hnames _).mpr (.inr ⟨shown, hshown, rfl⟩), (hnames _).mpr (.inl ?_)⟩
  exact ⟨_, List.mem_cons_of_mem _ List.mem_cons_self, rfl⟩

end ClassDef
end ScriptEngine
