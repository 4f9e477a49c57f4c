import Mathlib.Data.List.Infix
import ScriptEngine.Builtin.Objects
import ScriptEngine.Proofs.Evaluation.Arguments
import ScriptEngine.Proofs.Evaluation.Checks
import ScriptEngine.Proofs.Evaluation.Laws

/-!
# Sorting

Arrays and lists are sorted by merging, and the comparison may be code of the program.  Whatever that
code does, what a sequence holds afterwards is what it held before, in another order.

**Orders.**  If any two elements are comparable, with one another and across a third, the elements are
put in order, and those that are level keep the order they had (`StablySorted`).  Merging does so for
two lists that are sorted (`StablySorted.merge`), and takes of level elements the one on the left.

**Comparisons.**  Numbers and texts have such an order, and so have the elements that the numbers of a
callback put in one.  A callback may use the heap as it likes, as long as it goes on answering.
-/

namespace ScriptEngine

/-! ### Stable orders -/

section Orders

variable {α : Type} {le : α → α → Bool} {xs ys xs' ys' zs : List α}

/-- Any two of some elements are comparable, and a third carries the comparison on. -/
structure TotalPreorderOn (le : α → α → Bool) (xs : List α) : Prop where
  total : ∀ a ∈ xs, ∀ b ∈ xs, le a b = true ∨ le b a = true
  trans : ∀ a ∈ xs, ∀ b ∈ xs, ∀ c ∈ xs, le a b = true → le b c = true → le a c = true

/-- Whether each of two elements may come before the other. -/
def level (le : α → α → Bool) (a b : α) : Bool := le a b && le b a

/-- A list holds the elements of another one in order, and elements that are level in the order they
had. -/
structure StablySorted (le : α → α → Bool) (xs ys : List α) : Prop where
  perm : ys.Perm xs
  sorted : ys.Pairwise fun a b => le a b = true
  stable : ∀ a ∈ xs, ys.filter (level le a) = xs.filter (level le a)

theorem TotalPreorderOn.of_subset
    (h : TotalPreorderOn le xs) (hsub : ys ⊆ xs) :
    TotalPreorderOn le ys where
  total a ha b hb := h.total a (hsub ha) b (hsub hb)
  trans a ha b hb c hc := h.trans a (hsub ha) b (hsub hb) c (hsub hc)

theorem StablySorted.of_length_le_one
    (hshort : xs.length ≤ 1) :
    StablySorted le xs xs where
  perm := .refl _
  sorted := by
    match xs, hshort with
    | [], _ => exact .nil
    | [a], _ => exact List.pairwise_singleton _ a
  stable _ _ := rfl

section Merging

variable (hle : TotalPreorderOn le zs) (hxs : xs.Pairwise fun a b => le a b = true)
include hle hxs

/-- Merging sorted lists sorts. -/
theorem pairwise_merge_of_subset
    (hys : ys.Pairwise fun a b => le a b = true) (hxz : xs ⊆ zs) (hyz : ys ⊆ zs) :
    (xs.merge ys le).Pairwise fun a b => le a b = true := by
  induction xs generalizing ys with
  | nil =>
      rwa [List.nil_merge]
  | cons a xs ihx =>
      induction ys with
      | nil =>
          rwa [List.merge_right]
      | cons b ys ihy =>
          obtain ⟨hax, hxs'⟩ := List.pairwise_cons.mp hxs
          obtain ⟨hby, hys'⟩ := List.pairwise_cons.mp hys
          obtain ⟨ha, hxz'⟩ := List.cons_subset.mp hxz
          obtain ⟨hb, hyz'⟩ := List.cons_subset.mp hyz
          rw [List.cons_merge_cons]
          split
          · next hab =>
              refine .cons (fun z hz => ?_) (ihx hxs' hys hxz' hyz)
              rcases List.mem_merge.mp hz with hz | hz
              · exact hax z hz
              · rcases List.mem_cons.mp hz with rfl | hz
                · exact hab
                · exact hle.trans a ha b hb z (hyz' hz) hab (hby z hz)
          · next hab =>
              have hba : le b a = true := (hle.total b hb a ha).resolve_right hab
              refine .cons (fun z hz => ?_) (ihy hys' hyz')
              rcases List.mem_merge.mp hz with hz | hz
              · rcases List.mem_cons.mp hz with rfl | hz
                · exact hba
                · exact hle.trans b hb a ha z (hxz' hz) hba (hax z hz)
              · exact hby z hz

/-- Merging sorted lists leaves level elements in their order, those on the left first. -/
theorem filter_level_merge
    {c : α} (hc : c ∈ zs) (hxz : xs ⊆ zs) (hyz : ys ⊆ zs) :
    (xs.merge ys le).filter (level le c) =
      xs.filter (level le c) ++ ys.filter (level le c) := by
  induction xs generalizing ys with
  | nil =>
      rw [List.nil_merge, List.filter_nil, List.nil_append]
  | cons a xs ihx =>
      induction ys with
      | nil =>
          rw [List.merge_right, List.filter_nil, List.append_nil]
      | cons b ys ihy =>
          obtain ⟨hax, hxs'⟩ := List.pairwise_cons.mp hxs
          obtain ⟨ha, hxz'⟩ := List.cons_subset.mp hxz
          obtain ⟨hb, hyz'⟩ := List.cons_subset.mp hyz
          rw [List.cons_merge_cons]
          split
          · rw [List.filter_cons, List.filter_cons (x := a), ihx hxs' hxz' hyz]
            split
            · rfl
            · rfl
          · next hab =>
              rw [List.filter_cons, List.filter_cons (x := b), ihy hyz']
              split
              · next hcb =>
                  -- What is level with the right element would put the left one before it.
                  have hnone : (a :: xs).filter (level le c) = [] := by
                    refine List.filter_eq_nil_iff.mpr fun z hz hcz => hab ?_
                    rw [level, Bool.and_eq_true] at hcb hcz
                    have hzb : le z b = true :=
                      hle.trans z (hxz hz) c hc b hb hcz.2 hcb.1
                    rcases List.mem_cons.mp hz with rfl | hz
                    · exact hzb
                    · exact hle.trans a ha z (hxz' hz) b hb (hax z hz) hzb
                  rw [hnone, List.nil_append, List.nil_append]
              · rfl

end Merging

/-- What is level with one of two level elements is level with the other. -/
theorem TotalPreorderOn.level_congr
    (hle : TotalPreorderOn le zs) {a b c : α} (ha : a ∈ zs) (hb : b ∈ zs) (hc : c ∈ zs)
    (hab : level le a b = true) :
    level le a c = level le b c := by
  rw [level, Bool.and_eq_true] at hab
  rw [Bool.eq_iff_iff, level, level, Bool.and_eq_true, Bool.and_eq_true]
  constructor
  · rintro ⟨hac, hca⟩
    exact ⟨hle.trans b hb a ha c hc hab.2 hac, hle.trans c hc a ha b hb hca hab.1⟩
  · rintro ⟨hbc, hcb⟩
    exact ⟨hle.trans a ha b hb c hc hab.1 hbc, hle.trans c hc b hb a ha hcb hab.2⟩

/-- Sorting some of the elements keeps the order of those that are level with any other one. -/
theorem StablySorted.filter_level_eq
    (h : StablySorted le xs ys) (hle : TotalPreorderOn le zs) (hsub : xs ⊆ zs) {a : α}
    (ha : a ∈ zs) :
    ys.filter (level le a) = xs.filter (level le a) := by
  by_cases hsome : ∃ b ∈ xs, level le a b = true
  · obtain ⟨b, hb, hab⟩ := hsome
    have hcongr {us : List α} (hus : us ⊆ xs) :
        us.filter (level le a) = us.filter (level le b) :=
      List.filter_congr fun c hc => hle.level_congr ha (hsub hb) (hsub (hus hc)) hab
    rw [hcongr h.perm.subset, hcongr (List.Subset.refl xs), h.stable b hb]
  · have hnone {us : List α} (hus : us ⊆ xs) : us.filter (level le a) = [] :=
      List.filter_eq_nil_iff.mpr fun c hc hac => hsome ⟨c, hus hc, hac⟩
    rw [hnone h.perm.subset, hnone (List.Subset.refl xs)]

/-- The halves of a list may be sorted apart and merged. -/
theorem StablySorted.merge
    (hle : TotalPreorderOn le (xs ++ ys)) (hxs : StablySorted le xs xs')
    (hys : StablySorted le ys ys') :
    StablySorted le (xs ++ ys) (xs'.merge ys' le) := by
  have hxz : xs' ⊆ xs ++ ys := fun a ha => List.mem_append_left _ (hxs.perm.subset ha)
  have hyz : ys' ⊆ xs ++ ys := fun a ha => List.mem_append_right _ (hys.perm.subset ha)
  refine ⟨?_, pairwise_merge_of_subset hle hxs.sorted hys.sorted hxz hyz, fun a ha => ?_⟩
  · exact (List.merge_perm_append le).trans (hxs.perm.append hys.perm)
  · rw [filter_level_merge hle hxs.sorted ha hxz hyz, List.filter_append,
      hxs.filter_level_eq hle (List.subset_append_left _ _) ha,
      hys.filter_level_eq hle (List.subset_append_right _ _) ha]

end Orders

/-! ### Merging with comparisons -/

namespace Builtin

variable {order : Value → Value → Eval Ordering} {le : Value → Value → Bool} {I : Heap → Prop}
variable {S : Signal → Heap → Prop} {W : Prop}
variable {items merged left right : List Value} {ctx : Context} {h : Heap}

/-- A comparison answers as an order says, and goes on doing so. -/
def Compares (I : Heap → Prop) (ctx : Context) (order : Value → Value → Eval Ordering)
    (le : Value → Value → Bool) (items : List Value) : Prop :=
  ∀ a ∈ items, ∀ b ∈ items, ∀ h, I h →
    (order a b ctx h).Ensures I (.returns fun o h' => I h' ∧ (o = .gt ↔ le a b = false))

/-- Whatever the comparisons answer, merging loses nothing. -/
theorem mergeItems_perm
    (horder : ∀ a ∈ items, ∀ b ∈ items, ∀ h, I h →
      (order a b ctx h).Ensures I ⟨fun _ h' => I h', S, W⟩)
    (hleft : left ⊆ items) (hright : right ⊆ items) (hI : I h) :
    (mergeItems order merged left right ctx h).Ensures I
      ⟨fun zs h' => I h' ∧ zs.Perm (merged ++ (left ++ right)), S, W⟩ := by
  fun_induction mergeItems order merged left right generalizing h with
  | case1 merged right =>
      exact .value ⟨hI, merged.reverse_perm.append_right right⟩
  | case2 merged left _ =>
      rw [List.append_nil]
      exact .value ⟨hI, merged.reverse_perm.append_right left⟩
  | case3 merged a left b right ih ih' =>
      obtain ⟨ha, hleft'⟩ := List.cons_subset.mp hleft
      obtain ⟨hb, hright'⟩ := List.cons_subset.mp hright
      rw [Eval.bind_apply]
      refine (horder a ha b hb h hI).bind fun o h' hI' => ?_
      split
      · refine (ih hleft hright' hI').imp_value fun zs h'' hzs => ⟨hzs.1, hzs.2.trans ?_⟩
        rw [List.cons_append, ← List.append_assoc merged, ← List.append_assoc merged]
        exact List.perm_middle.symm
      · exact (ih' hleft' hright hI').imp_value fun zs h'' hzs =>
          ⟨hzs.1, hzs.2.trans List.perm_middle.symm⟩

/-- Merging by a comparison that answers as an order says is merging by the order. -/
theorem mergeItems_returns
    (horder : Compares I ctx order le items) (hleft : left ⊆ items) (hright : right ⊆ items)
    (hI : I h) :
    (mergeItems order merged left right ctx h).Ensures I
      (.returns fun zs h' => I h' ∧ zs = merged.reverse ++ left.merge right le) := by
  fun_induction mergeItems order merged left right generalizing h with
  | case1 merged right =>
      rw [List.nil_merge]
      exact .value ⟨hI, rfl⟩
  | case2 merged left _ =>
      rw [List.merge_right]
      exact .value ⟨hI, rfl⟩
  | case3 merged a left b right ih ih' =>
      obtain ⟨ha, hleft'⟩ := List.cons_subset.mp hleft
      obtain ⟨hb, hright'⟩ := List.cons_subset.mp hright
      rw [Eval.bind_apply]
      refine (horder a ha b hb h hI).bind ?_
      rintro o h' ⟨hI', ho⟩
      split
      · next hgt =>
          have hab : le a b = false := ho.mp (eq_of_beq hgt)
          rw [List.cons_merge_cons, hab, if_neg Bool.false_ne_true]
          refine (ih hleft hright' hI').imp_value ?_
          rintro zs h'' ⟨hI'', rfl⟩
          exact ⟨hI'', by rw [List.reverse_cons, List.append_assoc]; rfl⟩
      · next hgt =>
          have hab : le a b = true := by
            rw [← Bool.not_eq_false]
            exact fun hab => hgt (beq_of_eq (ho.mpr hab))
          rw [List.cons_merge_cons, hab, if_pos rfl]
          refine (ih' hleft' hright hI').imp_value ?_
          rintro zs h'' ⟨hI'', rfl⟩
          exact ⟨hI'', by rw [List.reverse_cons, List.append_assoc]; rfl⟩

/-- Whatever the comparisons answer, sorting loses nothing. -/
theorem sortItems_perm
    (horder : ∀ a ∈ items, ∀ b ∈ items, ∀ h, I h →
      (order a b ctx h).Ensures I ⟨fun _ h' => I h', S, W⟩)
    (hI : I h) :
    (sortItems order items ctx h).Ensures I ⟨fun zs h' => I h' ∧ zs.Perm items, S, W⟩ := by
  fun_induction sortItems order items generalizing h with
  | case1 items hshort =>
      exact .value ⟨hI, .refl items⟩
  | case2 items hlong ihl ihr =>
      have htake : items.take (items.length / 2) ⊆ items := List.take_subset _ _
      have hdrop : items.drop (items.length / 2) ⊆ items := List.drop_subset _ _
      rw [Eval.bind_apply]
      refine (ihl (fun a ha b hb => horder a (htake ha) b (htake hb)) hI).bind ?_
      rintro left h₁ ⟨hI₁, hleft⟩
      rw [Eval.bind_apply]
      refine (ihr (fun a ha b hb => horder a (hdrop ha) b (hdrop hb)) hI₁).bind ?_
      rintro right h₂ ⟨hI₂, hright⟩
      refine (mergeItems_perm horder (fun a ha => htake (hleft.subset ha))
        (fun a ha => hdrop (hright.subset ha)) hI₂).imp_value ?_
      rintro zs h' ⟨hI', hzs⟩
      have hmerged := hzs.trans (hleft.append hright)
      rw [List.take_append_drop] at hmerged
      exact ⟨hI', hmerged⟩

/-- Sorting by a comparison that answers as an order says sorts by the order. -/
theorem sortItems_returns
    (horder : Compares I ctx order le items) (hle : TotalPreorderOn le items) (hI : I h) :
    (sortItems order items ctx h).Ensures I
      (.returns fun zs h' => I h' ∧ StablySorted le items zs) := by
  fun_induction sortItems order items generalizing h with
  | case1 items hshort =>
      exact .value ⟨hI, .of_length_le_one hshort⟩
  | case2 items hlong ihl ihr =>
      have htake : items.take (items.length / 2) ⊆ items := List.take_subset _ _
      have hdrop : items.drop (items.length / 2) ⊆ items := List.drop_subset _ _
      have hpart {part : List Value} (hsub : part ⊆ items) : Compares I ctx order le part :=
        fun a ha b hb => horder a (hsub ha) b (hsub hb)
      rw [Eval.bind_apply]
      refine (ihl (hpart htake) (hle.of_subset htake) hI).bind ?_
      rintro left h₁ ⟨hI₁, hleft⟩
      rw [Eval.bind_apply]
      refine (ihr (hpart hdrop) (hle.of_subset hdrop) hI₁).bind ?_
      rintro right h₂ ⟨hI₂, hright⟩
      refine (mergeItems_returns horder (fun a ha => htake (hleft.perm.subset ha))
        (fun a ha => hdrop (hright.perm.subset ha)) hI₂).imp_value ?_
      rintro zs h' ⟨hI', rfl⟩
      have hmerged := hleft.merge (by rwa [List.take_append_drop]) hright
      rw [List.take_append_drop] at hmerged
      exact ⟨hI', hmerged⟩

theorem inquires_compareItems
    (E : Engine) (a b : Value) :
    Eval.Inquires (compareItems E none a b) := by
  exact .bind .heap fun h => .bind (.ofExcept _) fun o => .pure _

/-- Sorting only asks what its comparison asks. -/
theorem inquires_sortItems
    (horder : ∀ a b, Eval.Inquires (order a b)) (items : List Value) :
    Eval.Inquires (sortItems order items) := by
  have hmerge (merged left right : List Value) :
      Eval.Inquires (mergeItems order merged left right) := by
    fun_induction mergeItems order merged left right with
    | case1 merged right =>
        exact .pure _
    | case2 merged left _ =>
        exact .pure _
    | case3 merged a left b right ih ih' =>
        refine (horder a b).bind fun o => ?_
        split
        · exact ih
        · exact ih'
  fun_induction Builtin.sortItems order items with
  | case1 items hshort =>
      exact .pure _
  | case2 items hlong ihl ihr =>
      exact ihl.bind fun left => ihr.bind fun right => hmerge [] left right

/-! ### Comparisons -/

/-- The order of numbers among numbers, and of texts among texts. -/
def natural : Value → Value → Bool
  | .int x, .int y => x ≤ y
  | .str x, .str y => x ≤ y
  | _, _ => false

/-- All elements are integers, or all are texts. -/
def OneKind (items : List Value) : Prop :=
  (∀ a ∈ items, ∃ i, a = .int i) ∨ ∀ a ∈ items, ∃ s, a = .str s

theorem OneKind.totalPreorderOn
    (hkind : OneKind items) :
    TotalPreorderOn natural items := by
  rcases hkind with hint | hstr
  · refine ⟨fun a ha b hb => ?_, fun a ha b hb c hc => ?_⟩
    · obtain ⟨x, rfl⟩ := hint a ha
      obtain ⟨y, rfl⟩ := hint b hb
      simpa [natural] using Int64.le_total x y
    · obtain ⟨x, rfl⟩ := hint a ha
      obtain ⟨y, rfl⟩ := hint b hb
      obtain ⟨z, rfl⟩ := hint c hc
      simpa [natural] using Int64.le_trans
  · refine ⟨fun a ha b hb => ?_, fun a ha b hb c hc => ?_⟩
    · obtain ⟨x, rfl⟩ := hstr a ha
      obtain ⟨y, rfl⟩ := hstr b hb
      simpa [natural] using String.le_total x y
    · obtain ⟨x, rfl⟩ := hstr a ha
      obtain ⟨y, rfl⟩ := hstr b hb
      obtain ⟨z, rfl⟩ := hstr c hc
      simpa [natural] using String.le_trans

/-- Of numbers, and of texts, the comparison without a callback knows the order. -/
theorem OneKind.compares
    (hkind : OneKind items) (E : Engine) (I : Heap → Prop) (ctx : Context) :
    Compares I ctx (compareItems E none) natural items := by
  intro a ha b hb h hI
  rcases hkind with hint | hstr
  · obtain ⟨x, rfl⟩ := hint a ha
    obtain ⟨y, rfl⟩ := hint b hb
    refine .value ⟨hI, ?_⟩
    rw [natural, decide_eq_false_iff_not, Int64.not_le]
    exact Std.compare_eq_gt
  · obtain ⟨x, rfl⟩ := hstr a ha
    obtain ⟨y, rfl⟩ := hstr b hb
    refine .value ⟨hI, ?_⟩
    rw [natural, decide_eq_false_iff_not, String.not_le, Option.getD_some]
    split
    · next hxy => simpa using String.lt_asymm hxy
    · next hxy =>
        split
        · next heq => simp [heq]
        · next hne =>
            refine iff_of_true rfl (String.not_le.mp fun hle => hne ?_)
            exact String.le_antisymm hle (String.not_lt.mp hxy)

/-- Whether the number that a callback gives for two elements leaves them in their order. -/
def leavesInOrder? : Value → Option Bool
  | .int i => some (i ≤ 0)
  | .float x => some (x.order (.ofInt64 0) != some .gt)
  | _ => none

/-- For any two of some elements a callback gives a number, as an order says, and goes on doing so. -/
def Answering (I : Heap → Prop) (ctx : Context) (E : Engine) (f : Value)
    (le : Value → Value → Bool) (items : List Value) : Prop :=
  ∀ a ∈ items, ∀ b ∈ items, ∀ h, I h →
    (Eval.callback E f [a, b] ctx h).Ensures I
      (.returns fun r h' => I h' ∧ leavesInOrder? r = some (le a b))

theorem Answering.compares
    {E : Engine} {f : Value} (hanswers : Answering I ctx E f le items) :
    Compares I ctx (compareItems E (some f)) le items := by
  intro a ha b hb h hI
  rw [compareItems, Eval.bind_apply]
  refine (hanswers a ha b hb h hI).bind ?_
  rintro r h' ⟨hI', hr⟩
  unfold leavesInOrder? at hr
  split at hr
  · next i =>
      refine .value ⟨hI', ?_⟩
      rw [← Option.some.inj hr, decide_eq_false_iff_not, Int64.not_le]
      exact Std.compare_eq_gt
  · next x =>
      refine .value ⟨hI', ?_⟩
      rw [← Option.some.inj hr]
      cases x.order (.ofInt64 0) with
      | none => simp
      | some o => cases o <;> simp
  · cases hr

end Builtin

/-! ### The method -/

/-- What an array or a list holds, if it is there. -/
def Heap.sequence? (h : Heap) : Value → Option (List Value)
  | .array id => (h.arrays[id]?).map (·.toList)
  | .collection c =>
    match c.kind, h.collections[c.id]? with
    | .list, some (.items xs) => some xs.toList
    | _, _ => none
  | _ => none

namespace Builtin

/-- Has a sequence hold other elements. -/
def putItems (v : Value) (items : List Value) : Eval Unit :=
  match v with
  | .array id => Eval.modify (·.modifyArray id fun _ => items.toArray)
  | .collection c => changeItems c fun _ => items.toArray
  | _ => pure ()

/-- Where a sequence is still there, it holds what is put into it. -/
theorem putItems_apply
    {h₀ : Heap} {v : Value} (hv : (h₀.sequence? v).isSome) (zs : List Value) (ctx : Context)
    (h : Heap) :
    ∃ h', putItems v zs ctx h = .value () h' ∧ h'.sequence? v = (h.sequence? v).map fun _ => zs := by
  unfold Heap.sequence? at hv
  split at hv
  · next id =>
      refine ⟨_, rfl, ?_⟩
      simp [Heap.sequence?, Heap.modifyArray, Array.getElem?_modify, Function.comp_def]
  · next c =>
      refine ⟨_, rfl, ?_⟩
      simp only [Heap.sequence?, Heap.modifyCollection, Array.getElem?_modify, if_pos]
      cases c.kind with
      | list =>
          rcases h.collections[c.id]? with - | ⟨xs | m⟩ <;> rfl
      | set => rfl
      | deque => rfl
      | map => rfl
  · cases hv

/-- The method of a list looks at the number of arguments, sorts, and then has the list hold the
sorted elements. -/
theorem callMethod_sort_list
    {c : Collection} (hkind : c.kind = .list) (E : Engine) (args : List Value) (ctx : Context)
    (h : Heap) :
    callMethod E (.collection c) "sort" args ctx h =
      (do Eval.ofExcept (takesBetween args 0 1)
          let sorted ← sortItems (compareItems E args.head?) (sequenceItems h c).toList
          putItems (.collection c) sorted
          pure Value.nil : Eval Value) ctx h := by
  show callCollection E c "sort" args ctx h = _
  unfold callCollection
  rw [hkind]
  rfl

/-- The method sorts what a sequence holds and has the sequence hold it, if it takes the arguments. -/
theorem callMethod_sort
    {v : Value} (hv : h.sequence? v = some items) (E : Engine) (args : List Value)
    (ctx : Context) :
    callMethod E v "sort" args ctx h =
      (do let sorted ← sortItems (compareItems E args.head?) items
          putItems v sorted
          pure Value.nil : Eval Value) ctx h ∨
      1 < args.length ∧ ∃ cause, callMethod E v "sort" args ctx h =
        (Eval.fault cause : Eval Value) ctx h := by
  unfold Heap.sequence? at hv
  split at hv
  · next id =>
      obtain ⟨xs, hxs, rfl⟩ := Option.map_eq_some_iff.mp hv
      left
      have hitems : h.array id = xs := by
        rw [Heap.array, Array.getD_eq_getD_getElem?, hxs, Option.getD_some]
      rw [← hitems]
      rfl
  · next c =>
      split at hv
      · next xs hkind hxs =>
          cases hv
          have hitems : sequenceItems h c = xs := by
            rw [sequenceItems, Heap.collection, Array.getD_eq_getD_getElem?, hxs, Option.getD_some]
          rw [callMethod_sort_list hkind, hitems, takesBetween]
          split
          · next hargs =>
              exact .inl rfl
          · next hargs =>
              exact .inr ⟨by omega, _, rfl⟩
      · cases hv
  · cases hv

/-- Sorting by a comparison that answers as an order says has the sequence hold its elements in that
order. -/
theorem callMethod_sort_ensures
    {v : Value} {E : Engine} {args : List Value} (hv : h.sequence? v = some items)
    (hargs : args.length ≤ 1) (hI : I h) (hthere : ∀ h', I h' → (h'.sequence? v).isSome)
    (horder : Compares I ctx (compareItems E args.head?) le items)
    (hle : TotalPreorderOn le items) :
    (callMethod E v "sort" args ctx h).Ensures I (.returns fun r h' =>
      r = .nil ∧ ∃ items', h'.sequence? v = some items' ∧ StablySorted le items items') := by
  obtain hsort | ⟨hmany, -⟩ := callMethod_sort hv E args ctx
  · rw [hsort, Eval.bind_apply]
    refine (sortItems_returns horder hle hI).bind ?_
    rintro zs h₁ ⟨hI₁, hzs⟩
    obtain ⟨h', hput, hseq⟩ := putItems_apply (hthere h hI) zs ctx h₁
    obtain ⟨old, hold⟩ := Option.isSome_iff_exists.mp (hthere h₁ hI₁)
    rw [Eval.bind_apply, hput]
    refine .value ⟨rfl, zs, ?_, hzs⟩
    rw [hseq, hold, Option.map_some]
  · exact absurd hmany (Nat.not_lt.mpr hargs)

/-- A sequence that was sorted holds what it held.  Numbers and texts are in their order, and so is
what a callback compares by an order; what is level there has stayed in the order it had. -/
theorem sort_stablySorted
    (E : Engine) (v : Value) (ctx : Context) (h : Heap) (items : List Value)
    (hv : h.sequence? v = some items) :
    (∀ args, (callMethod E v "sort" args ctx h).Ensures (fun _ => True)
      (.answers fun _ h' => ∀ items', h'.sequence? v = some items' → items'.Perm items)) ∧
    (OneKind items → ∃ items' h', callMethod E v "sort" [] ctx h = .value .nil h' ∧
      h'.sequence? v = some items' ∧ StablySorted natural items items') ∧
    (∀ f le I, I h → (∀ h', I h' → (h'.sequence? v).isSome) → TotalPreorderOn le items →
      Answering I ctx E f le items →
      (callMethod E v "sort" [f] ctx h).Ensures I (.returns fun r h' =>
        r = .nil ∧ ∃ items', h'.sequence? v = some items' ∧ StablySorted le items items')) := by
  have hthere : (h.sequence? v).isSome := by
    rw [hv]
    rfl
  refine ⟨fun args => ?_, fun hkind => ?_, fun f le I hI hthere hle hanswers => ?_⟩
  · obtain hsort | ⟨-, cause, hfault⟩ := callMethod_sort hv E args ctx
    · rw [hsort, Eval.bind_apply]
      refine (sortItems_perm (fun a _ b _ h _ => Res.ensures_trivial _ _) trivial).bind ?_
      rintro zs h₁ ⟨-, hzs⟩
      obtain ⟨h', hput, hseq⟩ := putItems_apply hthere zs ctx h₁
      rw [Eval.bind_apply, hput]
      refine .value fun items' hitems' => ?_
      rw [hseq, Option.map_eq_some_iff] at hitems'
      obtain ⟨_, _, rfl⟩ := hitems'
      exact hzs
    · rw [hfault]
      exact .raise trivial
  · have hreturns := sortItems_returns (I := (· = h)) (hkind.compares E _ ctx)
      hkind.totalPreorderOn rfl
    obtain ⟨zs, hzs⟩ | ⟨cause, hfault⟩ :=
      inquires_sortItems (inquires_compareItems E) items ctx h
    · rw [hzs] at hreturns
      obtain ⟨-, hsorted⟩ := Res.Ensures.value_iff.mp hreturns
      obtain hsort | ⟨hmany, -⟩ := callMethod_sort hv E [] ctx
      · obtain ⟨h', hput, hseq⟩ := putItems_apply hthere zs ctx h
        refine ⟨zs, h', ?_, ?_, hsorted⟩
        · rw [hsort, Eval.bind_apply, List.head?_nil, hzs, Res.bind, Eval.bind_apply, hput]
          rfl
        · rw [hseq, hv, Option.map_some]
      · exact absurd hmany (Nat.not_lt.mpr (Nat.zero_le 1))
    · rw [hfault] at hreturns
      exact (Res.Ensures.raise_iff.mp hreturns).elim
  · exact callMethod_sort_ensures hv (Nat.le_refl 1) hI hthere hanswers.compares hle

/-! #### Numbers by their tens -/

def tensOf (name : String) : Expr :=
  .binary .divide (.identifier name default) (.int 10 default) default

/-- The callback that compares the tens of two numbers. -/
def byTens : Value :=
  .function 0
    { name := "<lambda>"
      typeParams := []
      params := [⟨"a", none, false, default⟩, ⟨"b", none, false, default⟩]
      returns := none
      body := .expr (.binary .subtract (tensOf "a") (tensOf "b") default)
      closure := [] }

/-- The tens of a number are no more than those of another one. -/
def tensLe : Value → Value → Bool
  | .int x, .int y => x / 10 - y / 10 ≤ 0
  | _, _ => false

def numbers : Heap :=
  { Heap.empty with arrays := #[#[.int 21, .int 10, .int 25, .int 13]] }

theorem eval_tensOf
    {m : Memory} {id : ScopeId} {name : String} {x : Int64} (k : Nat) (ctx : Context)
    (hname : (m.scopes.scope id).vars.find? name = some ⟨.int x, .varBinding, none⟩) :
    Eval.Gives (Eval.run (k + 2) (.eval (tensOf name) [id])) ctx m (.int (x / 10)) m := by
  have hlookup : Eval.Gives (Eval.run (k + 1) (.eval (.identifier name default) [id])) ctx m
      (.int x) m := by
    refine .tracked _ fun past => ⟨past, ?_⟩
    show Eval.ofExcept (Eval.lookupName ⟨m, past⟩ [id] name) ctx ⟨m, past⟩ = _
    simp only [Eval.lookupName, Scopes.lookup, Scopes.resolve, hname]
    rfl
  have hten : Eval.Gives (Eval.run (k + 1) (.eval (.int 10 default) [id])) ctx m (.int 10) m :=
    .tracked _ fun past => ⟨past, rfl⟩
  have hquotient : Eval.Gives (do
      let left ← Eval.run (k + 1) (.eval (.identifier name default) [id])
      let right ← Eval.run (k + 1) (.eval (.int 10 default) [id])
      Eval.binaryOp ⟨Eval.run (k + 1), k + 1⟩ .divide left right) ctx m (.int (x / 10)) m :=
    hlookup.bind (hten.bind fun past => ⟨past, rfl⟩)
  exact .tracked _ hquotient

theorem callback_byTens
    (ctx : Context) (hdepth : ctx.depth < ctx.limit) (x y : Int64) (h : Heap) :
    ∃ h', Eval.callback ⟨Eval.run 10, 10⟩ byTens [.int x, .int y] ctx h =
      .value (.int (x / 10 - y / 10)) h' ∧ Eval.SameStores h h' := by
  let i : Invocation :=
    { name := "<lambda>"
      params := [⟨"a", none, false, default⟩, ⟨"b", none, false, default⟩]
      returns := none
      body := .expr (.binary .subtract (tensOf "a") (tensOf "b") default)
      closure := []
      receiver := none
      bindings := []
      locals := [] }
  have hcode : ∀ id ctx m, (m.scopes.scope id).vars =
        Assoc.ofList (i.boundLocals ++ Eval.boundParams i.params [.int x, .int y]) →
      Eval.Gives (Eval.runCode ⟨Eval.run 9, 9⟩ i.body [id]) ctx m
        (.value (.int (x / 10 - y / 10))) m := by
    intro id ctx m hvars
    have hx : Eval.Gives (Eval.run 8 (.eval (tensOf "a") [id])) ctx m (.int (x / 10)) m :=
      eval_tensOf 6 ctx (by rw [hvars]; rfl)
    have hy : Eval.Gives (Eval.run 8 (.eval (tensOf "b") [id])) ctx m (.int (y / 10)) m :=
      eval_tensOf 6 ctx (by rw [hvars]; rfl)
    have hdifference : Eval.Gives (do
        let left ← Eval.run 8 (.eval (tensOf "a") [id])
        let right ← Eval.run 8 (.eval (tensOf "b") [id])
        Eval.binaryOp ⟨Eval.run 8, 8⟩ .subtract left right) ctx m (.int (x / 10 - y / 10)) m :=
      hx.bind (hy.bind fun past => ⟨past, rfl⟩)
    have hbody : Eval.Gives
        (Eval.run 9 (.eval (.binary .subtract (tensOf "a") (tensOf "b") default) [id])) ctx m
        (.int (x / 10 - y / 10)) m :=
      .tracked _ hdifference
    exact hbody.bind (.pure _ ctx m)
  obtain ⟨scopes, hcall⟩ := Eval.invoke_gives (E := ⟨Eval.run 9, 9⟩) i [.int x, .int y]
    (.value (.int (x / 10 - y / 10))) default h rfl (by simp [i]) rfl hdepth hcode rfl
  have happlied : Eval.Gives (Eval.callback ⟨Eval.run 10, 10⟩ byTens [.int x, .int y]) ctx h.toMemory
      (.int (x / 10 - y / 10)) { h.toMemory with scopes := scopes } :=
    .tracked _ hcall
  exact happlied.sameStores

theorem sort_byTens :
    (callMethod ⟨Eval.run 10, 10⟩ (.array 0) "sort" [byTens] ⟨0, 10, none⟩ numbers).Ensures
      (Eval.SameStores numbers) (.returns fun r h' =>
        r = .nil ∧ ∃ items', h'.sequence? (.array 0) = some items' ∧
          StablySorted tensLe [.int 21, .int 10, .int 25, .int 13] items') := by
  obtain ⟨-, -, hcallback⟩ := sort_stablySorted ⟨Eval.run 10, 10⟩ (.array 0) ⟨0, 10, none⟩ numbers
    [.int 21, .int 10, .int 25, .int 13] rfl
  have hints : ∀ a ∈ [Value.int 21, .int 10, .int 25, .int 13], ∃ x, a = .int x := by
    simp
  have hthere : ∀ h', Eval.SameStores numbers h' → (h'.sequence? (.array 0)).isSome := by
    rintro h' ⟨_, _, rfl⟩
    rfl
  have hanswers : Answering (Eval.SameStores numbers) ⟨0, 10, none⟩ ⟨Eval.run 10, 10⟩ byTens tensLe
      [.int 21, .int 10, .int 25, .int 13] := by
    intro a ha b hb h hsame
    obtain ⟨x, rfl⟩ := hints a ha
    obtain ⟨y, rfl⟩ := hints b hb
    obtain ⟨h', hvalue, hsame'⟩ := callback_byTens ⟨0, 10, none⟩ (by decide) x y h
    rw [hvalue]
    exact .value ⟨hsame.trans hsame', rfl⟩
  exact hcallback byTens tensLe (Eval.SameStores numbers) ⟨_, _, rfl⟩ hthere
    ⟨by decide, by decide⟩ hanswers

end Builtin
end ScriptEngine
