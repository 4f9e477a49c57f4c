import ScriptEngine.Eval.Access
import ScriptEngine.Proofs.Collections.Sorting
import ScriptEngine.Proofs.Values.Rendering

/-!
# Operations on collections that fail

An operation looks at its arguments first, and changes the collection last.  Where it fails it has not
changed anything (`Atomic`), unless it adds several elements.

**Several elements.**  A list or a deque takes elements one after another.  The first one that it does
not take ends the operation, and those before it stay (`pushItems_cases`).

**Code of the program.**  Sorting and writing run code of the program before they change anything.
They leave of the collection what this code leaves of it.
-/

namespace ScriptEngine

namespace Builtin

/-- The methods that run code of the program. -/
def codeMethods : List String := ["forEach", "map", "filter", "sort", "toString"]

/-- The methods that take any number of elements. -/
def addMethods : List String := ["add", "push", "addLast"]

/-- A call of a collection that runs code of the program. -/
def RunsCode (c : Collection) (name : String) : Prop :=
  name ∈ collectionMethods c.kind ∧ name ∈ codeMethods

/-- A call that has a list or a deque take several elements. -/
def AddsSeveral (c : Collection) (name : String) (args : List Value) : Prop :=
  name ∈ collectionMethods c.kind ∧ name ∈ addMethods ∧ c.kind ≠ .set ∧ 1 < args.length

end Builtin

/-! ### Atomic operations -/

namespace Eval

variable {α β : Type} {x : Eval α} {f : α → Eval β}

/-- A computation that changes nothing but the history where it fails. -/
def Atomic (x : Eval α) : Prop :=
  ∀ ctx h, (∃ a h', x ctx h = .value a h') ∨ ∃ cause, x ctx h = (fault cause : Eval α) ctx h

/-- A computation that always has a value. -/
def Infallible (x : Eval α) : Prop := ∀ ctx h, ∃ a h', x ctx h = .value a h'

namespace Infallible

theorem pure
    (a : α) :
    Infallible (Pure.pure a) :=
  fun _ h => ⟨a, h, rfl⟩

theorem change
    (f : Heap → α × Heap) :
    Infallible (Eval.change f) :=
  fun _ h => ⟨(f h).1, (f h).2, rfl⟩

theorem bind
    (hx : Infallible x) (hf : ∀ a, Infallible (f a)) :
    Infallible (x >>= f) := by
  intro ctx h
  obtain ⟨a, h', ha⟩ := hx ctx h
  rw [bind_apply, ha]
  exact hf a ctx h'

theorem modify
    (f : Heap → Heap) :
    Infallible (Eval.modify f) :=
  fun _ h => ⟨(), f h, rfl⟩

theorem mapM
    {f : α → Eval β} {as : List α} (hf : ∀ a, Infallible (f a)) :
    Infallible (as.mapM f) := by
  induction as with
  | nil =>
      exact .pure []
  | cons a as ih =>
      rw [List.mapM_cons]
      exact (hf a).bind fun b => ih.bind fun bs => .pure (b :: bs)

end Infallible

namespace Atomic

theorem of_inquires
    (hx : Inquires x) :
    Atomic x :=
  fun ctx h => (hx ctx h).imp_left fun ⟨a, ha⟩ => ⟨a, h, ha⟩

theorem of_infallible
    (hx : Infallible x) :
    Atomic x :=
  fun ctx h => .inl (hx ctx h)

theorem fault
    (cause : Cause) :
    Atomic (Eval.fault cause : Eval α) :=
  .of_inquires (.fault cause)

/-- Questions come first. -/
theorem after
    (hx : Inquires x) (hf : ∀ a, Atomic (f a)) :
    Atomic (x >>= f) := by
  intro ctx h
  rw [bind_apply]
  obtain ⟨a, ha⟩ | ⟨cause, hfault⟩ := hx ctx h
  · rw [ha]
    exact hf a ctx h
  · rw [hfault]
    exact .inr ⟨cause, rfl⟩

/-- What cannot fail comes last. -/
theorem before
    (hx : Atomic x) (hf : ∀ a, Infallible (f a)) :
    Atomic (x >>= f) := by
  intro ctx h
  rw [bind_apply]
  obtain ⟨a, h', ha⟩ | ⟨cause, hfault⟩ := hx ctx h
  · rw [ha]
    exact .inl (hf a ctx h')
  · rw [hfault]
    exact .inr ⟨cause, rfl⟩

end Atomic

/-! ### Methods that run no code of the program -/

variable {E : Engine} {c : Collection} {name : String} {args : List Value}

theorem Inquires.checkElement
    (c : Collection) (key : Option Value) (v : Value) :
    Inquires (Builtin.checkElement c key v) :=
  .bind .heap fun _ => .unlessFault _

theorem Inquires.itemPlace
    (c : Collection) (key : Value) :
    Inquires (Builtin.itemPlace c key) :=
  .bind .heap fun _ => .ofExcept _

theorem Inquires.itemAt
    (c : Collection) (i : Nat) :
    Inquires (Builtin.itemAt c i) :=
  .bind .heap fun _ => .pure _

theorem Infallible.changeItems
    (c : Collection) (f : Array Value → Array Value) :
    Infallible (Builtin.changeItems c f) :=
  .modify _

theorem Infallible.changeEntries
    (c : Collection) (f : KeyedMap → KeyedMap) :
    Infallible (Builtin.changeEntries c f) :=
  .modify _

theorem Infallible.makeArray
    (xs : List Value) :
    Infallible (makeArray xs) :=
  .change _

theorem Infallible.toValue
    (a : Builtin.MapAnswer) :
    Infallible a.toValue := by
  cases a with
  | value v =>
      exact .pure v
  | items vs =>
      exact .makeArray vs
  | pairs es =>
      have hrow (e : Value × Value) : Infallible (Eval.makeArray [e.1, e.2]) := .makeArray _
      exact (Infallible.mapM hrow).bind fun rows => .makeArray rows

namespace Atomic

theorem pushItem
    (c : Collection) (v : Value) :
    Atomic (Builtin.pushItem c v) := by
  refine .after (.checkElement c none v) fun _ => .after .heap fun h => ?_
  refine .after (.pure _) fun isOld => ?_
  split
  · exact .of_infallible (.pure false)
  · exact .of_infallible (.bind (.changeItems c _) fun _ => .pure true)

theorem insertEntry
    (c : Collection) (key v : Value) :
    Atomic (Builtin.insertEntry c key v) :=
  .after (.checkElement c (some key) v) fun _ => .after .heap fun _ =>
    .of_infallible (.changeEntries c _)

theorem insertItem
    (c : Collection) (args : List Value) :
    Atomic (Builtin.insertItem c args) := by
  refine .after (.ofExcept _) fun _ => .after (.checkElement c none _) fun _ => ?_
  refine .after .heap fun h => ?_
  dsimp only
  split
  · split
    · exact .of_infallible (.changeItems c _)
    · exact .fault _
  · exact .fault _

theorem removeItem
    (c : Collection) (args : List Value) :
    Atomic (Builtin.removeItem c args) := by
  refine .after (.ofExcept _) fun _ => .after .heap fun h => .after (.pure _) fun found => ?_
  split
  · exact .of_infallible (.bind (.changeItems c _) fun _ => .pure true)
  · exact .of_infallible (.pure false)

theorem takeItem
    (c : Collection) (i : Nat) :
    Atomic (Builtin.takeItem c i) :=
  .after (.itemAt c i) fun v => .of_infallible (.bind (.changeItems c _) fun _ => .pure v)

end Atomic

/-- A sequence that is to take no more than one element changes with its last step only. -/
theorem Atomic.addItems
    (hone : c.kind = .set ∨ args.length ≤ 1) :
    Atomic (if c.kind == .set then do
        ofExcept (Builtin.takesExactly args 1)
        pure (.bool (← Builtin.pushItem c (Builtin.argument args 0)))
      else do
        args.forM fun v => do let _ ← Builtin.pushItem c v
        pure Value.nil) := by
  split
  · exact .after (.ofExcept _) fun _ => (Atomic.pushItem c _).before fun new => .pure _
  · next hkind =>
      have hlength : args.length ≤ 1 := hone.resolve_left fun hset => hkind (by rw [hset]; rfl)
      match args, hlength with
      | [], _ =>
          exact .of_infallible (.bind (.pure _) fun _ => .pure _)
      | [v], _ =>
          exact .before (.before (.before (.pushItem c v) fun new => .pure ()) fun _ => .pure ())
            fun _ => .pure _

/-- A method of a list, a set or a deque that runs no code of the program and adds no more than one
element changes it with its last step only. -/
theorem Atomic.callSequence
    (hcode : name ∉ Builtin.codeMethods)
    (hone : name ∈ Builtin.addMethods → c.kind = .set ∨ args.length ≤ 1) :
    Atomic (Builtin.callSequence E c name args) := by
  unfold Builtin.callSequence
  split
  case h_1 | h_2 | h_3 =>
    exact .addItems (hone (by simp [Builtin.addMethods]))
  case h_4 =>
    exact .after (.ofExcept _) fun _ => .after (.checkElement c none _) fun _ =>
      .of_infallible (.bind (.changeItems c _) fun _ => .pure _)
  case h_5 =>
    exact .after (.ofExcept _) fun _ => .after (.itemPlace c _) fun i => .of_inquires (.itemAt c i)
  case h_6 =>
    exact .after (.ofExcept _) fun _ => .after (.checkElement c _ _) fun _ =>
      .after (.itemPlace c _) fun i => .after (.itemAt c i) fun old =>
        .of_infallible (.bind (.changeItems c _) fun _ => .pure old)
  case h_7 =>
    exact (Atomic.insertItem c args).before fun _ => .pure _
  case h_8 =>
    exact (Atomic.removeItem c args).before fun found => .pure _
  case h_9 =>
    exact .after (.ofExcept _) fun _ => .after (.itemPlace c _) fun i => .takeItem c i
  case h_10 =>
    exact .takeItem c 0
  case h_11 =>
    exact .after .heap fun h => .takeItem c _
  case h_12 =>
    exact .of_inquires (.itemAt c 0)
  case h_13 =>
    exact .after .heap fun h => .of_inquires (.itemAt c _)
  case h_14 | h_15 | h_16 | h_17 | h_18 =>
    exact .of_inquires (.bind .heap fun h => .pure _)
  case h_19 =>
    exact .of_infallible (.bind (.changeItems c _) fun _ => .pure _)
  case h_20 | h_21 =>
    exact .after .heap fun h => .of_infallible (.makeArray _)
  case h_22 =>
    refine .after .heap fun h => ?_
    dsimp only
    split
    case h_6 => exact .fault _
    all_goals exact absurd (by simp [Builtin.codeMethods]) hcode

/-- A method of a map that runs no code of the program changes it with its last step only. -/
theorem Atomic.callMapCollection
    (hcode : name ∉ Builtin.codeMethods) :
    Atomic (Builtin.callMapCollection E c name args) := by
  unfold Builtin.callMapCollection
  split
  case h_1 | h_2 =>
    exact .after (.ofExcept _) fun _ => (Atomic.insertEntry c _ _).before fun _ => .pure _
  case h_3 | h_4 =>
    exact .after (.ofExcept _) fun _ => .after .heap fun h =>
      .of_infallible (.bind (.changeEntries c _) fun _ => .pure _)
  case h_5 =>
    exact .of_infallible (.bind (.changeEntries c _) fun _ => .pure _)
  case h_6 | h_7 =>
    exact absurd (by simp [Builtin.codeMethods]) hcode
  case h_8 =>
    refine .after .heap fun h => .after (.ofExcept _) fun answer? => ?_
    split
    · exact .of_infallible (.toValue _)
    · exact .fault _

/-- A method that neither runs code of the program nor adds several elements changes the collection
with its last step only. -/
theorem Atomic.callMethod
    (hcode : ¬ Builtin.RunsCode c name) (hone : ¬ Builtin.AddsSeveral c name args) :
    Atomic (Builtin.callMethod E (.collection c) name args) := by
  show Atomic (Builtin.callCollection E c name args)
  unfold Builtin.callCollection
  split
  · exact .fault _
  · next hmethod =>
      have hmem : name ∈ Builtin.collectionMethods c.kind := by simpa using hmethod
      have hcode' : name ∉ Builtin.codeMethods := fun hname => hcode ⟨hmem, hname⟩
      split
      · exact .callMapCollection hcode'
      · refine .callSequence hcode' fun hname => ?_
        by_contra hseveral
        rw [not_or, Nat.not_le] at hseveral
        exact hone ⟨hmem, hname, hseveral⟩

/-- An assignment to an element changes the collection with its last step only. -/
theorem Atomic.writeElement
    (c : Collection) (key v : Value) :
    Atomic (writeElement (.collection c) key v) := by
  show Atomic (if c.kind == .set then _ else assignElement c key v)
  split
  · exact .after .heap fun h => .fault _
  · refine .after (.checkElement c _ _) fun _ => ?_
    split
    · exact .after .heap fun h => .of_infallible (.changeEntries c _)
    · exact .after (.itemPlace c key) fun i => .of_infallible (.changeItems c _)

end Eval

/-! ### Several elements -/

/-- A heap in which a sequence has further elements at its end. -/
def Heap.withItems (h : Heap) (c : Collection) (vs : List Value) : Heap :=
  h.modifyCollection c.id fun
    | .items xs => .items (xs ++ vs.toArray)
    | .entries m => .entries m

theorem Heap.withItems_nil
    (h : Heap) (c : Collection) :
    h.withItems c [] = h := by
  have hcontents : (fun contents : CollectionContents => match contents with
      | .items xs => .items (xs ++ ([] : List Value).toArray)
      | .entries m => .entries m) = id := by
    funext contents
    cases contents with
    | items xs =>
        exact congrArg CollectionContents.items (Array.append_empty)
    | entries m =>
        rfl
  rw [withItems, modifyCollection, hcontents]
  refine congrArg (fun cs => { h with collections := cs }) (Array.ext_getElem? fun i => ?_)
  rw [Array.getElem?_modify, Option.map_id_fun, id, ite_self]

theorem Heap.withItems_append
    (h : Heap) (c : Collection) (vs ws : List Value) :
    (h.withItems c vs).withItems c ws = h.withItems c (vs ++ ws) := by
  refine congrArg (fun cs => { h with collections := cs }) (Array.ext_getElem? fun i => ?_)
  simp only [withItems, modifyCollection, Array.getElem?_modify]
  split
  · rw [Option.map_map]
    refine congrFun (congrArg Option.map (funext fun contents => ?_)) _
    cases contents with
    | items xs =>
        simp
    | entries m =>
        rfl
  · rfl

namespace Builtin

open Eval

variable {E : Engine} {c : Collection} {name : String} {args : List Value} {ctx : Context} {h : Heap}

/-- An element is added, or it is one that the sequence does not take. -/
theorem pushItem_cases
    (hkind : c.kind ≠ .set) (v : Value) (ctx : Context) (h : Heap) :
    elementFault? h c none v = none ∧ pushItem c v ctx h = .value true (h.withItems c [v]) ∨
      ∃ cause, elementFault? h c none v = some cause ∧
        pushItem c v ctx h = (Eval.fault cause : Eval Bool) ctx h := by
  have hpush : pushItem c v ctx h =
      (unlessFault (elementFault? h c none v) >>= fun _ =>
        (if (c.kind == .set && (position? h (sequenceItems h c).toList v).isSome) then pure false
        else do
          changeItems c (·.push v)
          pure true : Eval Bool)) ctx h := by
    cases hfault : elementFault? h c none v with
    | none =>
        rw [pushItem, checkElement, bind_apply, heap_bind_apply, hfault]
        rfl
    | some cause =>
        rw [pushItem, checkElement, bind_apply, heap_bind_apply, hfault]
        rfl
  rw [hpush]
  cases elementFault? h c none v with
  | none =>
      left
      have hset : (c.kind == .set) = false := beq_eq_false_iff_ne.mpr hkind
      rw [hset]
      exact ⟨rfl, rfl⟩
  | some cause =>
      exact .inr ⟨cause, rfl, rfl⟩

/-- A sequence takes elements one after another. -/
def TakesAll (h : Heap) (c : Collection) (vs : List Value) : Prop :=
  ∀ before v after, vs = before ++ v :: after → elementFault? (h.withItems c before) c none v = none

theorem TakesAll.cons
    {v : Value} {vs : List Value} (hv : elementFault? h c none v = none)
    (hvs : TakesAll (h.withItems c [v]) c vs) :
    TakesAll h c (v :: vs) := by
  rintro (- | ⟨u, before⟩) w after hsplit
  · cases hsplit
    rwa [h.withItems_nil]
  · obtain ⟨rfl, hrest⟩ := List.cons.inj hsplit
    have hw := hvs before w after hrest
    rwa [h.withItems_append, List.singleton_append] at hw

/-- Elements are added one after another, up to the first one that the sequence does not take. -/
theorem pushItems_cases
    (hkind : c.kind ≠ .set) (vs : List Value) (ctx : Context) (h : Heap) :
    (TakesAll h c vs ∧
      (vs.forM fun v => do let _ ← pushItem c v) ctx h = .value () (h.withItems c vs)) ∨
      ∃ before v after cause, vs = before ++ v :: after ∧
        elementFault? (h.withItems c before) c none v = some cause ∧
        (vs.forM fun v => do let _ ← pushItem c v) ctx h =
          (Eval.fault cause : Eval Unit) ctx (h.withItems c before) := by
  induction vs generalizing h with
  | nil =>
      left
      rw [h.withItems_nil]
      exact ⟨fun before v after hsplit => by simp at hsplit, rfl⟩
  | cons v vs ih =>
      have hcons : ((v :: vs).forM fun v => do let _ ← pushItem c v) ctx h =
          (pushItem c v ctx h).bind fun _ h' => (vs.forM fun v => do let _ ← pushItem c v) ctx h' := by
        show ((do let _ ← pushItem c v : Eval Unit) >>= fun _ =>
          vs.forM fun v => do let _ ← pushItem c v) ctx h = _
        rw [bind_apply, bind_apply, Res.bind_assoc]
        rfl
      rw [hcons]
      obtain ⟨hv, hpush⟩ | ⟨cause, hfault, hpush⟩ := pushItem_cases hkind v ctx h
      · -- The rest goes on from the heap that has the first element already.
        rw [hpush, Res.bind]
        obtain ⟨htakes, hrest⟩ | ⟨before, w, after, cause, rfl, hfault, hrest⟩ :=
          ih (h := h.withItems c [v])
        · left
          rw [hrest, h.withItems_append, List.singleton_append]
          exact ⟨htakes.cons hv, rfl⟩
        · right
          rw [h.withItems_append, List.singleton_append] at hfault hrest
          exact ⟨v :: before, w, after, cause, rfl, hfault, hrest⟩
      · right
        rw [hpush]
        exact ⟨[], v, vs, cause, rfl, by rwa [h.withItems_nil], by rw [h.withItems_nil]; rfl⟩

/-- A call that adds several elements adds them one after another, up to the first one that the
sequence does not take. -/
theorem callMethod_add_cases
    (hadds : AddsSeveral c name args) (E : Engine) (ctx : Context) (h : Heap) :
    (TakesAll h c args ∧
      callMethod E (.collection c) name args ctx h = .value .nil (h.withItems c args)) ∨
      ∃ before v after cause, args = before ++ v :: after ∧
        elementFault? (h.withItems c before) c none v = some cause ∧
        callMethod E (.collection c) name args ctx h =
          (Eval.fault cause : Eval Value) ctx (h.withItems c before) := by
  obtain ⟨hmethod, hname, hkind, -⟩ := hadds
  have hcall : callMethod E (.collection c) name args =
      (do args.forM fun v => do let _ ← pushItem c v
          pure Value.nil : Eval Value) := by
    show callCollection E c name args = _
    unfold callCollection
    rw [if_neg (by simpa using hmethod)]
    split
    · next hmap =>
        rw [hmap] at hmethod
        exact absurd hname ((by decide : ∀ s ∈ mapMethods, s ∉ addMethods) name hmethod)
    · have hset : (c.kind == .set) = false := beq_eq_false_iff_ne.mpr hkind
      simp only [addMethods, List.mem_cons, List.not_mem_nil, or_false] at hname
      rcases hname with rfl | rfl | rfl
      all_goals
        unfold callSequence
        rw [hset]
        rfl
  rw [hcall, bind_apply]
  obtain ⟨htakes, hall⟩ | ⟨before, v, after, cause, hargs, hfault, hrun⟩ :=
    pushItems_cases hkind args ctx h
  · rw [hall]
    exact .inl ⟨htakes, rfl⟩
  · rw [hrun]
    exact .inr ⟨before, v, after, cause, hargs, hfault, rfl⟩

/-! ### Code of the program -/

section Code

variable {I : Heap → Prop}

/-- Among some values, the objects that write themselves leave a heap of a kind. -/
structure WritesLeave (fuel : Nat) (ctx : Context) (I : Heap → Prop) (P : Value → Prop) : Prop where
  parts : ∀ h, I h → ∀ w, P w → ∀ u ∈ (h.makeup w).parts, P u
  own : ∀ w, P w → ∀ o m, w.writer? = some (o, m) → ∀ k < fuel, ∀ h, I h →
    (ownText ⟨run k, k⟩ o m ctx h).Ensures I (.leaves I)

/-- A comparison leaves of a collection what the callback leaves of it. -/
theorem compareItems_leaves
    {f? : Option Value} {a b : Value} {h₁ : Heap}
    (hkeeps : ∀ h', I h' → h'.collection c.id = h.collection c.id)
    (hcallback : ∀ f, f? = some f → ∀ h', I h' →
      (callback E f [a, b] ctx h').Ensures I (.leaves I))
    (hI : I h₁) :
    (compareItems E f? a b ctx h₁).Ensures I
      ⟨fun _ => I, fun _ h' => h'.collection c.id = h.collection c.id, True⟩ := by
  cases f? with
  | none =>
      obtain ⟨o, ho⟩ | ⟨cause, hfault⟩ := inquires_compareItems E a b ctx h₁
      · rw [ho]
        exact .value hI
      · rw [hfault]
        exact .raise (hkeeps h₁ hI)
  | some f =>
      rw [compareItems, bind_apply]
      have hcall : (callback E f [a, b] ctx h₁).Ensures I
          ⟨fun _ => I, fun _ h' => h'.collection c.id = h.collection c.id, True⟩ :=
        (hcallback f rfl h₁ hI).imp (fun _ _ => id) (fun _ => hkeeps) id
      refine hcall.bind fun r h' hI' => ?_
      rw [heap_bind_apply]
      cases orderFrom h' r with
      | ok o =>
          exact .value hI'
      | error cause =>
          exact .raise (hkeeps h' hI')

variable (hI : I h) (hkeeps : ∀ h', I h' → h'.collection c.id = h.collection c.id)
include hI hkeeps

/-- Where sorting fails, the comparisons alone have touched the collection. -/
theorem callMethod_sort_fails
    (hcallback : ∀ f, args.head? = some f → ∀ a ∈ (sequenceItems h c).toList,
      ∀ b ∈ (sequenceItems h c).toList, ∀ h', I h' →
        (callback E f [a, b] ctx h').Ensures I (.leaves I)) :
    (callMethod E (.collection c) "sort" args ctx h).Ensures I
      (.fails fun _ h' => h'.collection c.id = h.collection c.id) := by
  by_cases hkind : c.kind = .list
  · rw [callMethod_sort_list hkind, bind_apply]
    cases takesBetween args 0 1 with
    | error cause =>
        exact .raise rfl
    | ok _ =>
        show Res.Ensures I _ ((sortItems _ _ >>= _ : Eval Value) ctx h)
        rw [bind_apply]
        have hsort := sortItems_perm (fun a ha b hb h' hI' => compareItems_leaves hkeeps
          (fun f hf => hcallback f hf a ha b hb) hI') hI
        exact hsort.bind fun _ _ _ => .value trivial
  · have hmissing : callMethod E (.collection c) "sort" args ctx h =
        (Eval.fault (.missingMember c.kind.name "sort") : Eval Value) ctx h := by
      show callCollection E c "sort" args ctx h = _
      unfold callCollection
      cases hc : c.kind with
      | list => exact absurd hc hkind
      | set => rfl
      | deque => rfl
      | map => rfl
    rw [hmissing]
    exact .raise rfl

/-- Where writing fails, the objects that write themselves alone have touched the collection. -/
theorem callMethod_toString_fails
    {fuel : Nat} {P : Value → Prop} (hwrites : WritesLeave fuel ctx I P) (hc : P (.collection c)) :
    (callMethod ⟨run fuel, fuel⟩ (.collection c) "toString" args ctx h).Ensures I
      (.fails fun _ h' => h'.collection c.id = h.collection c.id) := by
  have hcall : callMethod ⟨run fuel, fuel⟩ (.collection c) "toString" args ctx h =
      (do pure (.str (← run fuel (.text (.collection c)))) : Eval Value) ctx h := by
    show callCollection ⟨run fuel, fuel⟩ c "toString" args ctx h = _
    unfold callCollection
    cases c.kind with
    | list => rfl
    | set => rfl
    | deque => rfl
    | map => rfl
  have htext : (run fuel (.text (.collection c)) ctx h).Ensures I
      ⟨fun _ => I, fun _ h' => h'.collection c.id = h.collection c.id, True⟩ :=
    (text_leaves hwrites.parts hwrites.own hc hI).imp (fun _ _ => id) (fun _ => hkeeps) id
  rw [hcall, bind_apply]
  exact htext.bind fun _ _ _ => .value trivial

end Code

/-- An operation on a collection that fails has not changed what it holds, but for the elements that a
list or a deque takes one after another before the one that it does not take, and for what code of the
program that it runs changes. -/
theorem unchanged_of_failure
    (fuel : Nat) (c : Collection) (ctx : Context) (h : Heap) :
    (∀ name args, ¬ RunsCode c name → ¬ AddsSeveral c name args →
      Atomic (callMethod ⟨run fuel, fuel⟩ (.collection c) name args)) ∧
    (∀ key v, Atomic (writeElement (.collection c) key v)) ∧
    (∀ name args, AddsSeveral c name args →
      (TakesAll h c args ∧ callMethod ⟨run fuel, fuel⟩ (.collection c) name args ctx h =
        .value .nil (h.withItems c args)) ∨
      ∃ before v after cause, args = before ++ v :: after ∧
        elementFault? (h.withItems c before) c none v = some cause ∧
        callMethod ⟨run fuel, fuel⟩ (.collection c) name args ctx h =
          (Eval.fault cause : Eval Value) ctx (h.withItems c before)) ∧
    ∀ I : Heap → Prop, I h → (∀ h', I h' → h'.collection c.id = h.collection c.id) →
      (∀ args, (∀ f, args.head? = some f → ∀ a ∈ (sequenceItems h c).toList,
          ∀ b ∈ (sequenceItems h c).toList, ∀ h', I h' →
            (callback ⟨run fuel, fuel⟩ f [a, b] ctx h').Ensures I (.leaves I)) →
        (callMethod ⟨run fuel, fuel⟩ (.collection c) "sort" args ctx h).Ensures I
          (.fails fun _ h' => h'.collection c.id = h.collection c.id)) ∧
      ∀ args P, WritesLeave fuel ctx I P → P (.collection c) →
        (callMethod ⟨run fuel, fuel⟩ (.collection c) "toString" args ctx h).Ensures I
          (.fails fun _ h' => h'.collection c.id = h.collection c.id) := by
  refine ⟨fun name args => .callMethod, .writeElement c, fun name args hadds => ?_,
    fun I hI hkeeps => ⟨fun args hcallback => ?_, fun args P hwrites hc => ?_⟩⟩
  · exact callMethod_add_cases hadds _ ctx h
  · exact callMethod_sort_fails hI hkeeps hcallback
  · exact callMethod_toString_fails hI hkeeps hwrites hc

/-! #### A list of numbers -/

def intList : Collection := ⟨0, .list, [.simple "Int"]⟩

def intLists : Heap :=
  { Heap.empty with collections := #[.items #[.int 21, .int 10]] }

/-- A list of numbers takes what goes by that name. -/
theorem elementFault?_intList
    {v : Value} (hv : v.isNil = false) (h : Heap) :
    elementFault? h intList none v = none ↔ Heap.headFits v "Int" = true := by
  have hcanonical : canonicalName "Int" = "Int" := by decide +kernel
  have hconforms : h.conforms v (.simple "Int") [] = Heap.headFits v "Int" := by
    simp [Heap.conforms, TypeExpr.simple, TypeExpr.substitute, Bindings.get?, Heap.fits, hcanonical,
      Heap.isKnownType, Heap.builtinTypes, Heap.plainConforms, Heap.instanceOf, Heap.namedInstance,
      hv]
  obtain ⟨cause, hfault⟩ : ∃ cause, elementFault? h intList none v =
      if h.conforms v (.simple "Int") [] then none else some cause :=
    ⟨_, rfl⟩
  rw [hfault, hconforms]
  cases Heap.headFits v "Int" with
  | true => simp
  | false => simp

theorem unchanged_of_failure_intList :
    Atomic (callMethod ⟨Eval.run 10, 10⟩ (.collection intList) "insert" [.int 5, .int 1]) ∧
    (∃ cause, callMethod ⟨Eval.run 10, 10⟩ (.collection intList) "push" [.int 2, .str "x"]
      ⟨0, 10, none⟩ intLists =
        (Eval.fault cause : Eval Value) ⟨0, 10, none⟩ (intLists.withItems intList [.int 2])) ∧
    (callMethod ⟨Eval.run 10, 10⟩ (.collection intList) "sort" [byTens] ⟨0, 10, none⟩
      intLists).Ensures (SameStores intLists)
      (.fails fun _ h' => h'.collection intList.id = intLists.collection intList.id) ∧
    (callMethod ⟨Eval.run 10, 10⟩ (.collection intList) "toString" [] ⟨0, 10, none⟩
      intLists).Ensures (SameStores intLists)
      (.fails fun _ h' => h'.collection intList.id = intLists.collection intList.id) := by
  obtain ⟨hplain, -, hseveral, hcode⟩ :=
    unchanged_of_failure 10 intList ⟨0, 10, none⟩ intLists
  obtain ⟨hsort, htext⟩ := hcode (SameStores intLists) ⟨_, _, rfl⟩ (by
    rintro h' ⟨_, _, rfl⟩
    rfl)
  have hint (i : Int64) (h : Heap) : elementFault? h intList none (.int i) = none :=
    (elementFault?_intList rfl h).mpr rfl
  have hstr (s : String) (h : Heap) : elementFault? h intList none (.str s) ≠ none :=
    fun hnone => Bool.false_ne_true ((elementFault?_intList (v := .str s) rfl h).mp hnone)
  have hints : ∀ a ∈ [Value.int 21, .int 10], ∃ x, a = .int x := by
    simp
  have hinsert := hplain "insert" [.int 5, .int 1] (fun hruns => absurd hruns.2 (by decide))
    fun hadds => absurd hadds.2.1 (by decide)
  have hpush : ∃ cause, callMethod ⟨Eval.run 10, 10⟩ (.collection intList) "push" [.int 2, .str "x"]
      ⟨0, 10, none⟩ intLists =
        (Eval.fault cause : Eval Value) ⟨0, 10, none⟩ (intLists.withItems intList [.int 2]) := by
    obtain ⟨htakes, -⟩ | ⟨before, v, after, cause, hsplit, hfault, hrun⟩ :=
      hseveral "push" [.int 2, .str "x"] ⟨by decide, by decide, by decide, by decide⟩
    · exact absurd (htakes [.int 2] (.str "x") [] rfl) (hstr _ _)
    · have hbefore : v = .int 2 ∨ before = [.int 2] := by
        rcases before with - | ⟨u, - | ⟨w, before⟩⟩
        · exact .inl (List.cons.inj hsplit).1.symm
        · rw [(List.cons.inj hsplit).1]
          exact .inr rfl
        · simp at hsplit
      rcases hbefore with rfl | rfl
      · exact absurd hfault (by simp [hint])
      · exact ⟨cause, hrun⟩
  have hsorted := hsort [byTens] fun f hf => by
    cases hf
    intro a ha b hb h' hsame
    obtain ⟨x, rfl⟩ := hints a ha
    obtain ⟨y, rfl⟩ := hints b hb
    obtain ⟨h'', hvalue, hsame'⟩ := callback_byTens ⟨0, 10, none⟩ (by decide) x y h'
    rw [hvalue]
    exact .value (hsame.trans hsame')
  have hwrites : WritesLeave 10 ⟨0, 10, none⟩ (SameStores intLists)
      fun w => w = .collection intList ∨ ∃ x, w = .int x := by
    constructor
    · rintro h' ⟨_, _, rfl⟩ w (rfl | ⟨x, rfl⟩) u hu
      · exact .inr (hints u hu)
      · nomatch hu
    · rintro w (rfl | ⟨x, rfl⟩) o m hwriter
      · nomatch hwriter
      · nomatch hwriter
  have hwritten := htext [] _ hwrites (.inl rfl)
  exact ⟨hinsert, hpush, hsorted, hwritten⟩

end Builtin
end ScriptEngine
