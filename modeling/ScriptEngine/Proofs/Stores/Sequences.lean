import ScriptEngine.Proofs.Stores.Answers

/-!
# Arrays, maps and collections that keep the stores

Callbacks may do whatever the engine does; what they are given and what a method stores in the end is
known before.

A collection checks what it takes.  What it stores later has passed the check, or it has been in the
collection already: `Collection.Takes` is preserved by every change of its contents.
-/

namespace ScriptEngine

attribute [grind ←] Knows.self Knows.more Knows.array Knows.map KeyedMap.knows_insert

namespace Keeps

variable {S : World} {E : Engine} {args : List Value} {v : Value} {α : Type} [Carrier α]

/-! ### Rules for the steps of builtin methods -/

attribute [grind ←] andThen pure fault note makeArray callback forM

@[grind ←]
theorem look : Keeps S Eval.heap := by
  exact heap.plain

@[grind ←]
theorem answer
    {r : Except Cause α} (hr : Knows S r) :
    Keeps S (Eval.ofExcept r) := by
  exact (ofExcept hr).plain

/-- A question to the heap; what is known in the end is the answer. -/
theorem query
    {β : Type} [Carrier β] {Q : β → Prop} {f : Heap → Except Cause α} {g : α → Eval β}
    (hf : ∀ w h, S ⊆ w → Knows w h → Knows w (f h)) (hg : ∀ a, Keeps (S ∪ carried a) (g a) Q) :
    Keeps S (Eval.heap >>= fun h => Eval.ofExcept (f h) >>= g) Q := by
  refine look.andThen fun h => ?_
  refine (answer (hf _ h Set.subset_union_left (Knows.self S h))).andThen fun a => ?_
  refine (hg a).mono (Set.union_subset_union_left _ Set.subset_union_left)

@[grind ←]
theorem text
    [Careful E] (hv : Knows S v) :
    Keeps S (E.text v) := by
  exact Careful.text hv

@[grind ←]
theorem each
    {β : Type} {f : β → Eval α} {xs : List β} (hf : ∀ a ∈ xs, Keeps S (f a)) :
    Keeps S (xs.mapM f) := by
  exact (mapM hf).plain

@[grind ←]
theorem texts
    [Careful E] {vs : List Value} (hvs : Knows S vs) :
    Keeps S (vs.mapM E.text) := by
  exact each fun v hv => Careful.text (hvs.of_mem hv)

theorem newArray
    {xs : Array Value} (hxs : Knows S xs) :
    Keeps S (Eval.change fun h => h.newArray xs) := by
  exact quietly fun w h hS _ => ⟨.newArray h (hxs.mono hS), knows_varray, trivial⟩

theorem modifyArray
    {f : Array Value → Array Value} (id : Nat) (hf : Knows S f) :
    Keeps S (Eval.modify (·.modifyArray id f)) := by
  exact modifyQuietly fun w h hS _ => .modifyArray h id fun xs hxs => knows_change.mp hf w xs hS hxs

/-! ### Callbacks for elements -/

section Items

variable [Careful E] {callee : Value} {items : List Value}

/-- An element with its place is known as the element is. -/
theorem knows_item
    {p : Value × Nat} (hitems : Knows S items) (hp : p ∈ items.zipIdx) :
    Knows S p.1 := by
  exact hitems.of_mem (List.fst_mem_of_mem_zipIdx hp)

@[grind ←]
theorem callFor
    {item : Value} (i : Nat) (hcallee : Knows S callee) (hitem : Knows S item) :
    Keeps S (Builtin.callFor E callee item i) := by
  exact callback hcallee (Builtin.knows_argsForElement hitem i)

@[grind ←]
theorem mapItems
    (hcallee : Knows S callee) (hitems : Knows S items) :
    Keeps S (Builtin.mapItems E callee items) := by
  exact (mapM fun p hp => callFor p.2 hcallee (knows_item hitems hp)).plain

@[grind ←]
theorem filterItems
    (hcallee : Knows S callee) (hitems : Knows S items) :
    Keeps S (Builtin.filterItems E callee items) := by
  refine (filterMapM (Q := fun _ => True) fun p hp => ?_).plain
  have hitem := knows_item hitems hp
  refine (callFor p.2 hcallee hitem).bind fun v _ => ite (fun _ => ?_) fun _ => ?_
  · exact pure (by simp [hitem]) fun _ _ => trivial
  · exact pure knows_none fun _ _ => trivial

@[grind ←]
theorem visitItems
    (hcallee : Knows S callee) (hitems : Knows S items) :
    Keeps S (Builtin.visitItems E callee items) := by
  refine forM fun p hp => (callFor p.2 hcallee (knows_item hitems hp)).andThen fun _ => ?_
  exact pure (knows_unit _) trivial

@[grind ←]
theorem findItem
    (wanted : Bool) (hcallee : Knows S callee) (hitems : Knows S items) :
    Keeps S (Builtin.findItem E callee wanted items) := by
  refine findM? (knows_list.mpr fun p hp => ?_) fun p hp => ?_
  · exact knows_pair.mpr ⟨knows_item hitems hp, knows_nat _⟩
  · refine (callFor p.2 hcallee (knows_item hitems hp)).andThen fun v => ?_
    exact pure (knows_bool _) trivial

end Items

/-! ### Sorting -/

section Sorting

variable [Careful E]

theorem knows_head?
    (hargs : Knows S args) :
    Knows S args.head? := by
  cases args with
  | nil =>
      exact knows_none
  | cons v rest =>
      exact (knows_cons.mp hargs).1

theorem compareItems
    {comparator : Option Value} {a b : Value} (hc : Knows S comparator) (ha : Knows S a)
    (hb : Knows S b) :
    Keeps S (Builtin.compareItems E comparator a b) := by
  unfold Builtin.compareItems
  grind

variable {order : Value → Value → Eval Ordering}

/-- What is sorted are the elements that were there. -/
theorem mergeItems
    {merged left right : List Value}
    (horder : ∀ a ∈ left, ∀ b ∈ right, Keeps S (order a b)) (hmerged : Knows S merged)
    (hleft : Knows S left) (hright : Knows S right) :
    Keeps S (Builtin.mergeItems order merged left right) fun sorted =>
      ∀ v ∈ sorted, v ∈ merged ∨ v ∈ left ∨ v ∈ right := by
  fun_induction Builtin.mergeItems order merged left right generalizing S with
  | case1 merged right =>
      refine pure ?_ (by simp)
      exact knows_append.mpr ⟨hmerged.of_subset (by simp), hright⟩
  | case2 merged left _ =>
      refine pure ?_ (by simp)
      exact knows_append.mpr ⟨hmerged.of_subset (by simp), hleft⟩
  | case3 merged a left b right ih ih' =>
      obtain ⟨ha, hrestLeft⟩ := knows_cons.mp hleft
      obtain ⟨hb, hrestRight⟩ := knows_cons.mp hright
      refine (horder a List.mem_cons_self b List.mem_cons_self).bind fun o _ => ?_
      refine ite (fun _ => ?_) fun _ => ?_
      · refine (ih (fun x hx y hy => ?_) ?_ (hleft.more _) (hrestRight.more _)).imp
          fun sorted hsorted v hv => ?_
        · exact (horder x hx y (List.mem_cons_of_mem _ hy)).more _
        · simp [hb, hmerged]
        · have hv' := hsorted v hv
          simp only [List.mem_cons] at hv' ⊢
          tauto
      · refine (ih' (fun x hx y hy => ?_) ?_ (hrestLeft.more _) (hright.more _)).imp
          fun sorted hsorted v hv => ?_
        · exact (horder x (List.mem_cons_of_mem _ hx) y hy).more _
        · simp [ha, hmerged]
        · have hv' := hsorted v hv
          simp only [List.mem_cons] at hv' ⊢
          tauto

theorem sortItems
    {items : List Value} (horder : ∀ a ∈ items, ∀ b ∈ items, Keeps S (order a b))
    (hitems : Knows S items) :
    Keeps S (Builtin.sortItems order items) fun sorted => ∀ v ∈ sorted, v ∈ items := by
  fun_induction Builtin.sortItems order items generalizing S with
  | case1 items hshort =>
      exact pure hitems fun v hv => hv
  | case2 items hlong ih ih' =>
      have hleft (v : Value) (hv : v ∈ items.take (items.length / 2)) := List.mem_of_mem_take hv
      have hright (v : Value) (hv : v ∈ items.drop (items.length / 2)) := List.mem_of_mem_drop hv
      refine (ih (fun a ha b hb => horder a (hleft a ha) b (hleft b hb))
        (hitems.of_subset hleft)).bind fun left hl => ?_
      refine (ih' (fun a ha b hb => (horder a (hright a ha) b (hright b hb)).more _)
        ((hitems.of_subset hright).more _)).bind fun right hr => ?_
      refine (mergeItems (fun a ha b hb => ?_) knows_nil (by simp) (by simp)).imp
        fun sorted hsorted v hv => ?_
      · exact ((horder a (hleft a (hl a ha)) b (hright b (hr b hb))).more _).more _
      · rcases hsorted v hv with hnil | hv | hv
        · cases hnil
        · exact hleft v (hl v hv)
        · exact hright v (hr v hv)

end Sorting

/-! ### Arrays -/

@[grind ←]
theorem separatorText
    [Careful E] (hargs : Knows S args) :
    Keeps S (Builtin.separatorText E args) := by
  unfold Builtin.separatorText
  grind

/-- The elements are taken up one by one. -/
theorem reduceItems
    [Careful E] {callee init : Value} {items : List Value} (hcallee : Knows S callee)
    (hinit : Knows S init) (hitems : Knows S items) :
    Keeps S (items.foldlM (fun acc item => Eval.callback E callee [acc, item]) init) := by
  refine foldlM hinit fun T acc hT hacc item hitem => callback (hcallee.mono hT) ?_
  simp [hacc, (hitems.of_mem hitem).mono hT]

theorem traverseArray
    [Careful E] (id : Nat) (name : String) (hargs : Knows S args) :
    Keeps S (Builtin.traverseArray E id name args) := by
  refine look.andThen fun h => ?_
  have hitems : Knows (S ∪ carried h) (h.array id).toList := (Knows.self S h).array id
  have hargs' := hargs.more (carried h)
  have hcallee := Builtin.knows_firstCallback (h := h) hargs'
  dsimp only
  split
  · refine (separatorText hargs').andThen fun separator => look.andThen fun h' => ?_
    have hitems' : Knows (S ∪ carried h ∪ carried separator ∪ carried h') (h'.array id).toList :=
      (Knows.self _ h').array id
    grind
  · refine (sortItems (fun a ha b hb => ?_) hitems).bind fun sorted _ => ?_
    · exact compareItems (knows_head? hargs') (hitems.of_mem ha) (hitems.of_mem hb)
    · refine (modifyArray id (knows_change.mpr fun u xs hu _ => ?_)).andThen fun _ => ?_
      · exact knows_toArray.mpr ((Knows.self _ sorted).mono hu)
      · exact pure knows_vnil trivial
  · grind
  · grind
  · refine (answer (Plain.knows _ _)).andThen fun _ => ?_
    refine (answer ((hcallee _).more _)).andThen fun f => ?_
    split
    · next initial heq =>
        have hinitial := hargs'.of_mem (List.mem_of_getElem? heq)
        exact reduceItems (by simp) (by simp [hinitial]) (by simp [hitems])
    · have htail := hitems.of_subset fun v hv => List.mem_of_mem_tail hv
      refine reduceItems (by simp) ?_ ((htail.more _).more _)
      cases hlist : (h.array id).toList with
      | nil =>
          exact knows_vnil
      | cons v rest =>
          rw [hlist] at hitems
          exact ((knows_cons.mp hitems).1.more _).more _
  · grind
  · refine (answer (hcallee _)).andThen fun f => ?_
    refine (findItem true (by simp) (by simp [hitems])).andThen fun found => pure ?_ trivial
    cases found with
    | none =>
        exact knows_vnil
    | some p =>
        exact (knows_pair.mp (Knows.self _ (some p))).1
  all_goals grind

@[grind ←]
theorem callArray
    [Careful E] (id : Nat) (name : String) (hargs : Knows S args) :
    Keeps S (Builtin.callArray E id name args) := by
  refine query (fun w h _ hh => Builtin.knows_queryArray hh id name) fun found => ?_
  cases found with
  | some v =>
      exact pure (Knows.self S (some v)) trivial
  | none =>
      refine more (query (fun w h hS hh => ?_) fun update => ?_) _
      · exact Builtin.knows_updateArray hh (hargs.mono hS) id name
      · cases update with
        | some u =>
            obtain ⟨hv, hchange⟩ := knows_pair.mp (Knows.self S (some u))
            exact (modifyArray id hchange).skip fun _ => pure hv trivial
        | none =>
            refine more (query (fun w h hS hh => ?_) fun derived => ?_) _
            · exact Builtin.knows_deriveArray hh (hargs.mono hS) id name
            · cases derived with
              | some items =>
                  exact newArray (Knows.self S (some items))
              | none =>
                  exact (traverseArray id name hargs).more _

/-! ### Maps -/

theorem insertInMap
    {key : Value} (id : Nat) (k : Heap → KeyImage) (hkey : Knows S key) (hv : Knows S v) :
    Keeps S (Eval.modify fun h => h.insertInMap id (k h) key v) := by
  exact modifyQuietly fun w h hS _ => .insertInMap h id (hkey.mono hS) (hv.mono hS)

@[grind ←]
theorem toValue
    {a : Builtin.MapAnswer} (ha : Knows S a) :
    Keeps S a.toValue := by
  unfold Builtin.MapAnswer.toValue
  split
  · exact pure ha trivial
  · exact makeArray ha
  · refine (mapM (Q := fun _ => True) fun e he => ?_).plain.andThen fun rows => ?_
    · have hknown := knows_pair.mp ((knows_answer_pairs.mp ha).of_mem he)
      exact makeArray (by simp [hknown.1, hknown.2])
    · exact makeArray (Knows.self _ _)

theorem visitEntries
    [Careful E] {entries : List (Value × Value)} (hargs : Knows S args) (hentries : Knows S entries) :
    Keeps S (Builtin.visitEntries E args entries) := by
  refine look.andThen fun h => ?_
  refine (answer (Builtin.knows_firstCallback (hargs.more _) _)).andThen fun f => forM fun e he => ?_
  have hknown := knows_pair.mp (hentries.of_mem he)
  refine (callback (by simp) (by simp [hknown.1, hknown.2])).andThen fun _ => ?_
  exact pure (knows_unit _) trivial

theorem eraseFromMap
    (id : Nat) (key : Value) :
    Keeps S (Builtin.eraseFromMap id key) := by
  refine quietly fun w h _ hf => ⟨.modifyMap h id fun m hm => KeyedMap.knows_erase hm _, ?_, trivial⟩
  exact (KeyedMap.knows_get? (hf.known.map id) _).getD knows_vnil

@[grind ←]
theorem callMap
    [Careful E] (id : Nat) (name : String) (hargs : Knows S args) :
    Keeps S (Builtin.callMap E id name args) := by
  have hinsert := insertInMap id (fun h => h.key (Builtin.argument args 0))
    (Builtin.knows_argument hargs 0) (Builtin.knows_argument hargs 1)
  unfold Builtin.callMap
  split
  · exact (answer (Plain.knows _ _)).skip fun _ => hinsert.skip fun _ => pure knows_vnil trivial
  · exact (answer (Plain.knows _ _)).skip fun _ => hinsert.skip fun _ => pure knows_vnil trivial
  · exact (answer (Plain.knows _ _)).skip fun _ => eraseFromMap id _
  · exact (answer (Plain.knows _ _)).skip fun _ => eraseFromMap id _
  · refine (modifyQuietly fun w h _ _ => ?_).skip fun _ => pure knows_vnil trivial
    exact .modifyMap h id fun m _ => KeyedMap.knows_empty
  · refine look.andThen fun h => ?_
    refine (visitEntries (hargs.more _) ?_).skip fun _ => pure knows_vnil trivial
    exact (Knows.self S h).map id
  · exact (text knows_vmap).skip fun s => pure knows_vstr trivial
  · refine query (fun w h hS hh => ?_) fun a => ?_
    · exact Builtin.knows_queryMap (hh.map id) (hargs.mono hS) _
    · split
      · next a => exact toValue (Knows.self S (some a))
      · exact fault _

end Keeps
end ScriptEngine
