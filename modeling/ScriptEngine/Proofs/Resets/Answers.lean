import ScriptEngine.Builtin.Globals
import ScriptEngine.Eval.Statement
import ScriptEngine.Proofs.Resets.Law

/-!
# Answers that do not depend on what is old

The functions of the evaluator that only look at a heap answer alike whether or not the old is
forgotten, if what they are asked about is recent.  What they answer with is recent again.
-/

namespace ScriptEngine

attribute [simp] Scopes.lookup_forget Scopes.importedAs_forget

attribute [grind ←] recent_vnil recent_vbool recent_vint recent_vfloat recent_vstr recent_vmodule
attribute [grind ←] recent_none recent_nil recent_unit recent_cause recent_bool recent_string
attribute [grind ←] recent_count KeyedMap.recent_empty KeyedMap.recent_get? KeyedMap.recent_keys
attribute [grind ←] KeyedMap.recent_values Recent.getD
attribute [grind =] recent_some recent_ok recent_error recent_pair recent_cons recent_vnative
attribute [grind =] recent_answer_value recent_answer_items recent_answer_pairs

/-- What a change of an array is made of. -/
instance : Dated (Array Value → Array Value) := ⟨fun t f => ∀ xs, Recent t xs → Recent t (f xs)⟩

section Exceptions

variable {t : Epoch} {α β : Type} [Dated β]

@[grind ←]
theorem Recent.except_bind
    {x : Except Cause α} {f : α → Except Cause β} (hf : ∀ a, Recent t (f a)) :
    Recent t (x >>= f) := by
  cases x with
  | error c =>
      exact recent_error.mpr (recent_cause c)
  | ok a =>
      exact hf a

@[grind ←]
theorem Recent.except_map
    {x : Except Cause α} {f : α → β} (hf : ∀ a, Recent t (f a)) :
    Recent t (x.map f) := by
  cases x with
  | error c =>
      exact recent_error.mpr (recent_cause c)
  | ok a =>
      exact hf a

@[simp, grind =]
theorem recent_except_pure {b : β} : Recent t (pure b : Except Cause β) ↔ Recent t b := Iff.rfl

@[simp, grind ←]
theorem recent_except_throw
    {c : Cause} :
    Recent t (throw c : Except Cause β) := by
  exact recent_error.mpr (recent_cause c)

/-- An answer that is known to be recent. -/
theorem Recent.of_ok {r : Except Cause β} {b : β} (hr : Recent t r) (hb : r = .ok b) :
    Recent t b := by
  subst hb
  exact hr

end Exceptions

variable {t : Epoch} {h : Heap} {args : List Value} {v : Value}

namespace Eval

/-! ### Comparison and places -/

theorem compareValues_forget
    {a b : Value} (hh : h.Renewed t) (ha : Recent t a) (hb : Recent t b) :
    compareValues (h.forget t) a b = compareValues h a b := by
  unfold compareValues
  split
  · rfl
  · rfl
  · rw [Heap.typeName_forget hh ha, Heap.typeName_forget hh hb]

@[simp]
theorem indexOf_forget
    (hh : h.Renewed t) (hv : Recent t v) (length : Nat) :
    indexOf (h.forget t) v length = indexOf h v length := by
  cases v with
  | int i =>
      rfl
  | _ =>
      rw [indexOf, indexOf, Heap.typeName_forget hh hv]
      all_goals nofun

end Eval

namespace Builtin

/-! ### Arguments -/

attribute [grind ←] recent_argument

@[simp]
theorem length?_forget
    (hv : Recent t v) :
    length? (h.forget t) v = length? h v := by
  cases v with
  | array id =>
      rw [length?, length?, Heap.array_forget hv]
  | map id =>
      rw [length?, length?, Heap.map_forget hv]
  | collection c =>
      rw [length?, length?, Heap.collectionSize, Heap.collectionSize, Heap.collection_forget hv]
  | channel id element =>
      rw [length?, length?, Heap.channel_forget hv]
  | _ =>
      rfl

section Arguments

variable (hh : h.Renewed t)

include hh

@[simp]
theorem unknownMethod_forget
    (hv : Recent t v) (name : String) :
    unknownMethod (h.forget t) v name = unknownMethod h v name := by
  rw [unknownMethod, unknownMethod, Heap.typeName_forget hh hv]

variable (hargs : Recent t args)

include hargs

@[simp]
theorem intAt_forget
    (i : Nat) (what : String) :
    intAt (h.forget t) args i what = intAt h args i what := by
  unfold intAt
  split
  · rfl
  · next v _ hv =>
      rw [Heap.typeName_forget hh (hargs v (List.mem_of_getElem? hv))]
  · rfl

@[simp]
theorem floatAt_forget
    (i : Nat) (what : String) :
    floatAt (h.forget t) args i what = floatAt h args i what := by
  unfold floatAt
  split
  · next v hv =>
      rw [Heap.typeName_forget hh (hargs v (List.mem_of_getElem? hv))]
  · rfl

@[simp]
theorem stringAt_forget
    (i : Nat) (what : String) :
    stringAt (h.forget t) args i what = stringAt h args i what := by
  unfold stringAt
  split
  · rfl
  · next v _ hv =>
      rw [Heap.typeName_forget hh (hargs v (List.mem_of_getElem? hv))]
  · rfl

@[simp]
theorem firstCallback_forget
    (what : String) :
    firstCallback (h.forget t) args what = firstCallback h args what := by
  cases args with
  | nil =>
      rfl
  | cons v rest =>
      rw [firstCallback, firstCallback, Heap.typeName_forget hh (recent_cons.mp hargs).1]

/-- The place of what equals a value. -/
@[simp]
theorem position?_forget
    (hv : Recent t v) :
    position? (h.forget t) args v = position? h args v := by
  unfold position?
  induction args with
  | nil =>
      rfl
  | cons a rest ih =>
      obtain ⟨ha, hrest⟩ := recent_cons.mp hargs
      rw [List.findIdx?_cons, List.findIdx?_cons, Heap.equals_forget hh ha hv, ih hrest]

end Arguments

theorem recent_firstCallback
    (hargs : Recent t args) (what : String) :
    Recent t (firstCallback h args what) := by
  unfold firstCallback
  grind

@[grind ←]
theorem recent_place
    (i : Option Nat) :
    Recent t (place i) := by
  cases i with
  | none =>
      exact recent_vint
  | some n =>
      exact recent_count n

theorem recent_argsForElement
    {callee item : Value} (hitem : Recent t item) (i : Nat) :
    Recent t (argsForElement callee item i) := by
  unfold argsForElement
  split
  · simpa using hitem
  · simpa using hitem

/-! ### Strings and numbers -/

section Scalars

variable (hh : h.Renewed t) (hargs : Recent t args)

include hh hargs

@[simp]
theorem stringMethod_forget
    (s name : String) :
    stringMethod (h.forget t) s name args = stringMethod h s name args := by
  have hequals : (h.forget t).equals (.str s) (argument args 0) =
      h.equals (.str s) (argument args 0) :=
    Heap.equals_forget hh recent_vstr (recent_argument hargs 0)
  unfold stringMethod
  simp only [substring, repeatString, padString, intAt_forget hh hargs, stringAt_forget hh hargs,
    hequals]

@[simp]
theorem stringPieces_forget
    (s name : String) :
    stringPieces (h.forget t) s name args = stringPieces h s name args := by
  simp [stringPieces, hh, hargs]

theorem numberMethod_forget
    {receiver : Value} (hreceiver : Recent t receiver) (x : Decimal.Double) (name : String) :
    numberMethod (h.forget t) receiver x name args = numberMethod h receiver x name args := by
  simp [numberMethod, powNumber, toFixed, hh, hargs, hreceiver, recent_argument]

@[simp]
theorem intMethod_forget
    (i : Int64) (name : String) :
    intMethod (h.forget t) i name args = intMethod h i name args := by
  simp only [intMethod, numberMethod_forget hh hargs recent_vint]

@[simp]
theorem floatMethod_forget
    (x : Decimal.Double) (name : String) :
    floatMethod (h.forget t) x name args = floatMethod h x name args := by
  simp only [floatMethod, numberMethod_forget hh hargs recent_vfloat]

@[simp]
theorem callScalar_forget
    (hv : Recent t v) (name : String) :
    callScalar (h.forget t) v name args = callScalar h v name args := by
  simp [callScalar, hh, hargs, hv, recent_argument]

@[simp]
theorem callInstance_forget
    {o : Instance} (ho : Recent t o) (name : String) :
    callInstance (h.forget t) o name args = callInstance h o name args := by
  have hobject : Recent t (Value.object o) := ho
  simp [callInstance, hh, hargs, hobject, recent_argument]

@[simp]
theorem constantNamed_forget
    {c : ClassDef} (hc : Recent t c) :
    constantNamed (h.forget t) c args = constantNamed h c args := by
  simp [constantNamed, hh, hargs, Heap.staticsOf_forget hc.classId]

end Scalars

@[grind ←]
theorem recent_repeated
    (s : String) (n : Int64) :
    Recent t (Eval.repeated s n) := by
  unfold Eval.repeated
  grind

theorem recent_stringMethod
    (s name : String) :
    Recent t (stringMethod h s name args) := by
  have hsubstring : Recent t (substring h s args) := by
    unfold substring
    grind
  have hrepeat : Recent t (repeatString h s args) := by
    unfold repeatString
    grind
  have hpad (name : String) : Recent t (padString h s name args) := by
    unfold padString
    grind
  unfold stringMethod
  split <;> grind

theorem recent_numberMethod
    (receiver : Value) (x : Decimal.Double) (name : String) :
    Recent t (numberMethod h receiver x name args) := by
  have hpow : Recent t (powNumber h receiver x args) := by
    refine .except_bind fun _ => ?_
    split
    · split
      · exact recent_except_pure.mpr recent_vint
      · exact .except_bind fun _ => recent_except_pure.mpr recent_vfloat
    · exact .except_bind fun _ => recent_except_pure.mpr recent_vfloat
  have hfixed : Recent t (toFixed h x args) := by
    unfold toFixed
    grind
  unfold numberMethod
  split <;> grind

theorem recent_intMethod
    (i : Int64) (name : String) :
    Recent t (intMethod h i name args) := by
  have hnumber : Recent t (numberMethod h (.int i) (.ofInt64 i) name args) :=
    recent_numberMethod _ _ name
  unfold intMethod
  split <;> grind

theorem recent_floatMethod
    (x : Decimal.Double) (name : String) :
    Recent t (floatMethod h x name args) := by
  have hnumber : Recent t (numberMethod h (.float x) x name args) := recent_numberMethod _ x name
  unfold floatMethod
  split <;> grind

theorem recent_callScalar
    (v : Value) (name : String) :
    Recent t (callScalar h v name args) := by
  unfold callScalar
  grind

theorem recent_callInstance
    {o : Instance} (ho : Recent t o) (name : String) :
    Recent t (callInstance h o name args) := by
  have hcls : Recent t (Value.classDef o.cls) := ho.2
  unfold callInstance
  split <;> grind

theorem recent_constantNamed
    {c : ClassDef} (hh : h.Renewed t) (hc : Recent t c) :
    Recent t (constantNamed h c args) := by
  refine .except_bind fun _ => .except_bind fun wanted => ?_
  split
  · next v heq =>
      exact (hh.staticsOf hc.classId).2 v (List.mem_of_find?_eq_some heq)
  · exact recent_except_throw

/-! ### Builtin functions -/

section Functions

variable (hh : h.Renewed t) (hargs : Recent t args)

include hh hargs

@[simp]
theorem rangeItems_forget : rangeItems (h.forget t) args = rangeItems h args := by
  simp only [rangeItems, intAt_forget hh hargs]

@[simp]
theorem instanceOfArg_forget : instanceOfArg (h.forget t) args = instanceOfArg h args := by
  have hfirst := recent_argument hargs 0
  have hsecond := recent_argument hargs 1
  unfold instanceOfArg
  congr
  funext u
  cases heq : argument args 1 with
  | str spec =>
      simp only [Heap.instanceOf_forget hh hfirst]
  | _ =>
      simp only [Heap.instanceOf_forget hh hfirst, Heap.typeName_forget hh (heq ▸ hsecond)]

theorem extreme_forget
    (greatest : Bool) :
    extreme (h.forget t) greatest args = extreme h greatest args := by
  have hfloat (better : Decimal.Double → Decimal.Double → Bool) (what : String) (is : List Nat)
      (best : Decimal.Double) :
      extremeFloat (h.forget t) better what args is best =
        extremeFloat h better what args is best := by
    induction is generalizing best with
    | nil =>
        rfl
    | cons i rest ih =>
        rw [extremeFloat, extremeFloat, floatAt_forget hh hargs]
        simp only [ih]
  simp only [extreme, floatAt_forget hh hargs, hfloat]

theorem pureNative_forget
    (f : Native) :
    pureNative (h.forget t) f args = pureNative h f args := by
  have harg := recent_argument hargs 0
  cases f with
  | len =>
      simp [pureNative, lengthOf, hh, harg]
  | int =>
      simp only [pureNative, toInt, Heap.typeName_forget hh harg]
  | float =>
      simp only [pureNative, toFloat, Heap.typeName_forget hh harg]
  | instanceOf =>
      simp only [pureNative, instanceOfArg_forget hh hargs]
  | sysInstanceOf =>
      simp only [pureNative, instanceOfArg_forget hh hargs]
  | sysType =>
      simp only [pureNative, Heap.typeName_forget hh harg]
  | sysTime =>
      simp only [pureNative, currentTime, stringAt_forget hh hargs, Heap.clock_forget]
  | mathUnary f =>
      simp only [pureNative, applyMath, floatAt_forget hh hargs]
  | mathAbs =>
      simp only [pureNative, absolute, floatAt_forget hh hargs]
  | mathPow =>
      simp only [pureNative, power, floatAt_forget hh hargs]
  | mathMin =>
      simp only [pureNative, extreme_forget hh hargs]
  | mathMax =>
      simp only [pureNative, extreme_forget hh hargs]
  | _ =>
      rfl

end Functions

theorem recent_pureNative
    {f : Native} {r : Except Cause Value} (hr : pureNative h f args = some r) :
    Recent t r := by
  have hint : Recent t (toInt h args) := by
    refine .except_bind fun _ => ?_
    extract_lets v n
    cases n with
    | none => exact recent_except_throw
    | some i => exact recent_except_pure.mpr recent_vint
  have hfloat : Recent t (toFloat h args) := by
    refine .except_bind fun _ => ?_
    extract_lets v x
    cases x with
    | none => exact recent_except_throw
    | some x => exact recent_except_pure.mpr recent_vfloat
  have hlength : Recent t (lengthOf h args) := by
    refine .except_bind fun _ => ?_
    split
    · exact recent_except_pure.mpr (recent_count _)
    · exact recent_except_throw
  have hinstance : Recent t (instanceOfArg h args) := by
    refine .except_bind fun _ => ?_
    dsimp only
    split
    · split
      · exact .except_bind fun _ => recent_except_pure.mpr recent_vbool
      · exact .except_bind fun _ => recent_except_pure.mpr recent_vbool
    · exact .except_bind fun _ => recent_except_pure.mpr recent_vbool
    · exact .except_bind fun _ => recent_except_pure.mpr recent_vbool
    · exact .except_bind fun _ => recent_except_pure.mpr recent_vbool
  have htime : Recent t (currentTime h args) := by
    refine .except_bind fun _ => ?_
    dsimp only
    split
    · exact .except_bind fun _ => recent_except_pure.mpr (.ite recent_vfloat (recent_count _))
    · exact .except_bind fun _ => recent_except_pure.mpr (.ite recent_vfloat (recent_count _))
  have hmath (f : MathFunction) : Recent t (applyMath h f args) := by
    unfold applyMath
    grind
  have habsolute : Recent t (absolute h args) := by
    refine .except_bind fun _ => ?_
    split
    · exact recent_except_pure.mpr recent_vint
    · exact .except_bind fun _ => recent_except_pure.mpr recent_vfloat
  have hpower : Recent t (power h args) := by
    unfold power
    grind
  have hextreme (greatest : Bool) : Recent t (extreme h greatest args) := by
    unfold extreme
    grind
  unfold pureNative at hr
  split at hr <;> grind

theorem recent_member?
    (m : Module) (name : String) :
    Recent t (m.member? name) := by
  have hnative (f : Native) (hf : ∀ id, f ≠ .resolve id ∧ f ≠ .reject id) :
      Recent t (Value.native f) := by
    cases f with
    | resolve id =>
        exact ((hf id).1 rfl).elim
    | reject id =>
        exact ((hf id).2 rfl).elim
    | _ =>
        exact trivial
  unfold Module.member?
  split <;> first
    | exact recent_none
    | exact recent_some.mpr recent_vfloat
    | exact recent_some.mpr (hnative _ (by simp))
    | exact Recent.map_some fun f _ => hnative _ (by simp)

/-- A sequence of integers mentions nothing. -/
theorem recent_progression
    (start step : Int) (count : Nat) :
    Recent t (Eval.progression start step count) := by
  intro v hv
  obtain ⟨i, -, rfl⟩ := Array.mem_map.mp hv
  exact recent_vint

theorem recent_rangeItems : Recent t (rangeItems h args) := by
  have hitems (start step : Int) (count : Nat) : Recent t (Eval.progression start step count) :=
    recent_progression start step count
  have hnext (start stop step : Int64) : Recent t (do
      if step = 0 then throw (.other "range() step must not be zero")
      let n := stepCount start.toInt stop.toInt step.toInt
      if maxSequenceLength < n then
        throw (.sizeLimit s!"range({start}, {stop}, {step})")
      pure (Eval.progression start.toInt step.toInt n) : Except Cause (Array Value)) := by
    grind
  unfold rangeItems
  refine .except_bind fun _ => ?_
  dsimp only
  split
  · refine .except_bind fun bounds => ?_
    split
    · exact .except_bind fun step => hnext _ _ step
    · exact hnext _ _ 1
  · refine .except_bind fun start => .except_bind fun stop => .except_bind fun bounds => ?_
    split
    · exact .except_bind fun step => hnext _ _ step
    · exact hnext _ _ 1

/-! ### Arrays and maps -/

section Sequences

variable {id : Nat} (hh : h.Renewed t) (hargs : Recent t args)

include hh hargs

omit hargs in
@[simp]
theorem orderFrom_forget
    (hv : Recent t v) :
    orderFrom (h.forget t) v = orderFrom h v := by
  cases v with
  | int i =>
      rfl
  | float x =>
      rfl
  | _ =>
      rw [orderFrom, orderFrom, Heap.typeName_forget hh hv]
      all_goals nofun

theorem queryArray_forget
    (hid : t.arrays ≤ id) (name : String) :
    queryArray (h.forget t) id name args = queryArray h id name args := by
  have harg := recent_argument hargs 0
  have hitems : Recent t (h.array id).toList := recent_toList.mpr (hh.array hid)
  simp only [queryArray, Heap.array_forget hid, Eval.indexOf_forget hh harg,
    position?_forget hh hitems harg]

omit hh in
theorem concatItems_forget
    (items : Array Value) :
    concatItems (h.forget t) items args = concatItems h items args := by
  unfold concatItems
  induction args generalizing items with
  | nil =>
      rfl
  | cons v rest ih =>
      obtain ⟨hv, hrest⟩ := recent_cons.mp hargs
      rw [List.foldl_cons, List.foldl_cons, ih hrest]
      cases v with
      | array id =>
          dsimp only
          rw [Heap.array_forget (recent_varray.mp hv)]
      | _ =>
          rfl

theorem deriveArray_forget
    (hid : t.arrays ≤ id) (name : String) :
    deriveArray (h.forget t) id name args = deriveArray h id name args := by
  simp only [deriveArray, sliceItems, Heap.array_forget hid, intAt_forget hh hargs,
    concatItems_forget hargs]

theorem updateArray_forget
    (hid : t.arrays ≤ id) (name : String) :
    updateArray (h.forget t) id name args = updateArray h id name args := by
  have harg := recent_argument hargs 0
  simp only [updateArray, insertionPlace, Heap.array_forget hid, intAt_forget hh hargs,
    Eval.indexOf_forget hh harg]

theorem queryMap_forget
    {m : KeyedMap} (name : String) :
    queryMap (h.forget t) m name args = queryMap h m name args := by
  have harg := recent_argument hargs 0
  simp only [queryMap, Heap.key_forget hh harg]

end Sequences

theorem recent_queryArray
    {id : Nat} (hh : h.Renewed t) (hid : t.arrays ≤ id) (name : String) :
    Recent t (queryArray h id name args) := by
  have hitem (i : Nat) : Recent t ((h.array id).getD i .nil) :=
    (hh.array hid).array_getD recent_vnil i
  unfold queryArray
  split <;> grind

theorem recent_concatItems
    {items : Array Value} (hh : h.Renewed t) (hitems : Recent t items) (hargs : Recent t args) :
    Recent t (concatItems h items args) := by
  unfold concatItems
  induction args generalizing items with
  | nil =>
      exact hitems
  | cons v rest ih =>
      obtain ⟨hv, hrest⟩ := recent_cons.mp hargs
      rw [List.foldl_cons]
      refine ih ?_ hrest
      split
      · exact recent_array_append.mpr ⟨hitems, hh.array hv⟩
      · exact recent_array_push.mpr ⟨hitems, hv⟩

theorem recent_deriveArray
    {id : Nat} (hh : h.Renewed t) (hid : t.arrays ≤ id) (hargs : Recent t args) (name : String) :
    Recent t (deriveArray h id name args) := by
  have hitems := hh.array hid
  have hreverse : Recent t (h.array id).reverse :=
    hitems.of_array_subset fun v hv => Array.mem_reverse.mp hv
  have hpart (start stop : Nat) : Recent t ((h.array id).extract start stop) := by
    refine hitems.of_array_subset fun v hv => ?_
    obtain ⟨i, hi, rfl⟩ := Array.mem_extract_iff_getElem.mp hv
    exact Array.getElem_mem _
  have hslice : Recent t (sliceItems h (h.array id) args) := by
    unfold sliceItems
    grind
  unfold deriveArray
  dsimp only
  split
  · cases heq : sliceItems h (h.array id) args with
    | error c =>
        exact recent_error.mpr (recent_cause c)
    | ok items =>
        exact recent_some.mpr (hslice.of_ok heq)
  · exact recent_some.mpr (recent_concatItems hh hitems hargs)
  · exact recent_some.mpr hreverse
  · exact recent_none

/-- A change of an array stores nothing but arguments. -/
theorem recent_updateArray
    {id : Nat} (hh : h.Renewed t) (hid : t.arrays ≤ id) (hargs : Recent t args) (name : String) :
    Recent t (updateArray h id name args) := by
  have hitem (i : Nat) : Recent t ((h.array id).getD i .nil) :=
    (hh.array hid).array_getD recent_vnil i
  have harg (i : Nat) : Recent t (argument args i) := recent_argument hargs i
  have happend : Recent t fun xs : Array Value => xs ++ args := fun xs hxs => by
    rw [← recent_toList, Array.toList_appendList]
    exact recent_append.mpr ⟨recent_toList.mpr hxs, hargs⟩
  have herase (i : Nat) : Recent t fun xs : Array Value => xs.eraseIdxIfInBounds i :=
    fun xs hxs => hxs.eraseIdxIfInBounds i
  unfold updateArray
  split
  · refine .except_bind fun _ => .except_bind fun i =>
      recent_some.mpr ⟨recent_vnil, fun xs hxs => ?_⟩
    exact hxs.setIfInBounds (harg 1) i
  · exact recent_some.mpr ⟨recent_vnil, happend⟩
  · exact recent_some.mpr ⟨recent_vnil, happend⟩
  · exact recent_some.mpr ⟨hitem _, fun xs hxs => hxs.pop⟩
  · exact recent_some.mpr ⟨hitem _, herase 0⟩
  · refine recent_some.mpr ⟨recent_vnil, fun xs hxs => ?_⟩
    exact recent_array_append.mpr ⟨recent_toArray.mpr hargs, hxs⟩
  · refine .except_bind fun _ => .except_bind fun i =>
      recent_some.mpr ⟨recent_vnil, fun xs hxs => ?_⟩
    exact Recent.insertIdxIfInBounds hxs (harg 1) i
  · exact .except_bind fun _ => .except_bind fun i => recent_some.mpr ⟨hitem _, herase i⟩
  · exact recent_some.mpr ⟨recent_vnil, fun xs _ => recent_array_empty⟩
  · exact recent_none

theorem recent_queryMap
    {m : KeyedMap} (hm : Recent t m) (hargs : Recent t args) (name : String) :
    Recent t (queryMap h m name args) := by
  have hentries : Recent t m.entries.toList := recent_toList.mpr hm
  unfold queryMap
  split
  · refine .except_bind fun _ => recent_some.mpr ?_
    exact (KeyedMap.recent_get? hm _).getD (recent_argument hargs 1)
  all_goals grind

/-! ### Collections -/

section Collections

variable {c : Collection} (hc : Recent t c)

include hc

@[simp]
theorem sequenceItems_forget : sequenceItems (h.forget t) c = sequenceItems h c := by
  rw [sequenceItems, sequenceItems, Heap.collection_forget hc]

@[simp]
theorem mapEntries_forget : mapEntries (h.forget t) c = mapEntries h c := by
  rw [mapEntries, mapEntries, Heap.collection_forget hc]

theorem recent_sequenceItems
    (hh : h.Renewed t) :
    Recent t (sequenceItems h c) := by
  have hcontents := hh.collection hc
  unfold sequenceItems
  split
  · next xs heq =>
      rw [heq] at hcontents
      exact hcontents
  · exact recent_array_empty

theorem recent_mapEntries
    (hh : h.Renewed t) :
    Recent t (mapEntries h c) := by
  have hcontents := hh.collection hc
  unfold mapEntries
  split
  · exact KeyedMap.recent_empty
  · next m heq =>
      rw [heq] at hcontents
      exact hcontents

end Collections

theorem elementFault?_forget
    {key : Option Value} (c : Collection) (hh : h.Renewed t) (hkey : Recent t key)
    (hv : Recent t v) :
    elementFault? (h.forget t) c key v = elementFault? h c key v := by
  unfold elementFault?
  cases key with
  | none =>
      simp only [Heap.conforms_forget hh hv, Heap.typeName_forget hh hv, Option.bind_none]
  | some k =>
      have hk := recent_some.mp hkey
      simp only [Heap.conforms_forget hh hv, Heap.typeName_forget hh hv, Option.bind_some,
        Heap.conforms_forget hh hk, Heap.typeName_forget hh hk]

theorem messageFault?_forget
    (element : Option TypeExpr) (hh : h.Renewed t) (hv : Recent t v) :
    messageFault? (h.forget t) element v = messageFault? h element v := by
  simp only [messageFault?, Heap.conforms_forget hh hv, Heap.typeName_forget hh hv]

end Builtin

namespace Eval

/-! ### Operators, names and elements -/

theorem operate_forget
    {a b : Value} (hh : h.Renewed t) (ha : Recent t a) (hb : Recent t b) (op : BinaryOp) :
    operate (h.forget t) op a b = operate h op a b := by
  have hfault (op : BinaryOp) : operandFault (h.forget t) op a b = operandFault h op a b := by
    rw [operandFault, operandFault, Heap.typeName_forget hh ha, Heap.typeName_forget hh hb]
  have harithmetic (op : BinaryOp) (f : Decimal.Double → Decimal.Double → Decimal.Double) :
      arithmetic (h.forget t) op f a b = arithmetic h op f a b := by
    simp only [arithmetic, hfault]
  have hcompare : compareValues (h.forget t) a b = compareValues h a b :=
    compareValues_forget hh ha hb
  cases op with
  | equal =>
      simp only [operate, Heap.equals_forget hh ha hb]
  | notEqual =>
      simp only [operate, Heap.equals_forget hh ha hb]
  | add =>
      exact harithmetic _ _
  | subtract =>
      unfold operate
      dsimp only
      split
      · rfl
      · exact harithmetic _ _
  | multiply =>
      unfold operate
      dsimp only
      split
      · rfl
      · rfl
      · rfl
      · exact harithmetic _ _
  | divide =>
      unfold operate
      dsimp only
      split
      · rfl
      · exact harithmetic _ _
  | modulo =>
      unfold operate
      dsimp only
      split
      · rfl
      · exact harithmetic _ _
  | _ =>
      simp only [operate, hcompare]

theorem recent_operate
    (op : BinaryOp) (a b : Value) :
    Recent t (operate h op a b) := by
  have harithmetic (op : BinaryOp) (f : Decimal.Double → Decimal.Double → Decimal.Double) :
      Recent t (arithmetic h op f a b) := by
    unfold arithmetic
    split
    · exact recent_ok.mpr recent_vfloat
    · exact recent_error.mpr (recent_cause _)
  have hdivision {y : Int64} {v : Value} (hv : Recent t v) :
      Recent t (if y = 0 then .error .divisionByZero else .ok v : Except Cause Value) :=
    .ite (recent_error.mpr (recent_cause _)) (recent_ok.mpr hv)
  cases op with
  | equal =>
      exact recent_ok.mpr recent_vbool
  | notEqual =>
      exact recent_ok.mpr recent_vbool
  | add =>
      exact harithmetic _ _
  | subtract =>
      unfold operate
      dsimp only
      split
      · exact recent_ok.mpr recent_vint
      · exact harithmetic _ _
  | multiply =>
      unfold operate
      dsimp only
      split
      · exact recent_ok.mpr recent_vint
      · exact Builtin.recent_repeated _ _
      · exact Builtin.recent_repeated _ _
      · exact harithmetic _ _
  | divide =>
      unfold operate
      dsimp only
      split
      · exact hdivision recent_vint
      · exact harithmetic _ _
  | modulo =>
      unfold operate
      dsimp only
      split
      · exact hdivision recent_vint
      · exact harithmetic _ _
  | _ =>
      exact .except_map fun _ => recent_vbool

theorem lookupName_forget
    {env : Env} (henv : Recent t env) (name : String) :
    lookupName (h.forget t) env name = lookupName h env name := by
  have hlookup : (h.scopes.forget t).lookup env = h.scopes.lookup env :=
    funext fun name => Scopes.lookup_forget henv name
  rw [lookupName, lookupName, Heap.scopes_forget, hlookup, Scopes.importedAs_forget henv]

theorem recent_lookupName
    {env : Env} (hh : h.Renewed t) (henv : Recent t env) (name : String) :
    Recent t (lookupName h env name) := by
  have hlookup (name : String) : Recent t (h.scopes.lookup env name) :=
    Scopes.Renewed.lookup hh.scopes henv name
  unfold lookupName
  split
  · next v heq =>
      exact hlookup name v heq
  · split
    · next v heq =>
        obtain ⟨m, -, hm⟩ := Option.bind_eq_some_iff.mp heq
        exact hlookup m v hm
    · exact recent_error.mpr (recent_cause _)

theorem channelCapacity_forget
    (hh : h.Renewed t) (hv : Recent t v) :
    channelCapacity (h.forget t) v = channelCapacity h v := by
  cases v with
  | int n =>
      rfl
  | _ =>
      rw [channelCapacity, channelCapacity, Heap.display_forget hh hv]
      all_goals nofun

theorem rangeOf_forget
    {a b : Value} (hh : h.Renewed t) (ha : Recent t a) (hb : Recent t b) :
    rangeOf (h.forget t) a b = rangeOf h a b := by
  unfold rangeOf
  split
  · rfl
  · rw [Heap.typeName_forget hh ha, Heap.typeName_forget hh hb]

theorem recent_rangeOf
    (a b : Value) :
    Recent t (rangeOf h a b) := by
  have hitems (start step : Int) (count : Nat) : Recent t (progression start step count) :=
    Builtin.recent_progression start step count
  unfold rangeOf
  split
  · exact .ite (recent_error.mpr (recent_cause _)) (recent_ok.mpr (hitems _ _ _))
  · exact recent_error.mpr (recent_cause _)

theorem elementAt_forget
    {key : Value} (items : Array Value) (hh : h.Renewed t) (hkey : Recent t key) :
    elementAt (h.forget t) items key = elementAt h items key := by
  rw [elementAt, elementAt, indexOf_forget hh hkey]

theorem recent_elementAt
    {items : Array Value} (hitems : Recent t items) (key : Value) :
    Recent t (elementAt h items key) := by
  exact .except_map fun i => hitems.array_getD recent_vnil i

theorem elementOf_forget
    {key : Value} (hh : h.Renewed t) (hv : Recent t v) (hkey : Recent t key) :
    elementOf (h.forget t) v key = elementOf h v key := by
  cases v with
  | array id =>
      rw [elementOf, elementOf, Heap.array_forget hv, elementAt_forget _ hh hkey]
  | str s =>
      rw [elementOf, elementOf, characterAt, characterAt, indexOf_forget hh hkey]
  | map id =>
      rw [elementOf, elementOf, Heap.map_forget hv, Heap.key_forget hh hkey]
  | collection c =>
      simp only [elementOf, Heap.collection_forget (recent_vcollection.mp hv),
        Heap.key_forget hh hkey, elementAt_forget _ hh hkey]
  | _ =>
      rw [elementOf, elementOf, Heap.typeName_forget hh hv]
      all_goals nofun

theorem recent_elementOf
    (hh : h.Renewed t) (hv : Recent t v) (key : Value) :
    Recent t (elementOf h v key) := by
  unfold elementOf
  split
  · exact recent_elementAt (hh.array hv) key
  · exact .except_map fun i => recent_vstr
  · exact recent_ok.mpr ((KeyedMap.recent_get? (hh.map hv) _).getD recent_vnil)
  · next c =>
      have hcontents := hh.collection (recent_vcollection.mp hv)
      split
      · next xs heq =>
          rw [heq] at hcontents
          exact recent_elementAt hcontents key
      · next m heq =>
          rw [heq] at hcontents
          exact recent_ok.mpr ((KeyedMap.recent_get? hcontents _).getD recent_vnil)
  · exact recent_error.mpr (recent_cause _)

theorem itemsOf_forget
    (hh : h.Renewed t) (hv : Recent t v) :
    itemsOf (h.forget t) v = itemsOf h v := by
  cases v with
  | array id =>
      simp only [itemsOf, Heap.array_forget (recent_varray.mp hv)]
  | map id =>
      simp only [itemsOf, Heap.map_forget (recent_vmap.mp hv)]
  | collection c =>
      simp only [itemsOf, Heap.collection_forget (recent_vcollection.mp hv)]
  | str s =>
      rfl
  | nil =>
      rfl
  | _ =>
      rw [itemsOf, itemsOf, Heap.typeName_forget hh hv]
      all_goals nofun

/-- The elements of a value are numbered. -/
theorem recent_indexed
    {items : List Value} (hitems : Recent t items) :
    Recent t (items.zipIdx.map fun p => (Builtin.count p.2, p.1)) := by
  exact Recent.map_list fun p hp => ⟨recent_count _, hitems p.1 (List.fst_mem_of_mem_zipIdx hp)⟩

theorem recent_itemsOf
    (hh : h.Renewed t) (hv : Recent t v) :
    Recent t (itemsOf h v) := by
  unfold itemsOf
  dsimp only
  split
  · exact ⟨recent_indexed (recent_toList.mpr (hh.array hv)), trivial⟩
  · exact ⟨recent_indexed (Recent.map_list fun _ _ => recent_vstr), trivial⟩
  · exact ⟨recent_toList.mpr (hh.map hv), trivial⟩
  · next c =>
      have hcontents := hh.collection (recent_vcollection.mp hv)
      split
      · next xs heq =>
          rw [heq] at hcontents
          exact ⟨recent_indexed (recent_toList.mpr hcontents), trivial⟩
      · next m heq =>
          rw [heq] at hcontents
          exact ⟨recent_toList.mpr hcontents, trivial⟩
  · exact ⟨recent_nil, trivial⟩
  · exact recent_error.mpr (recent_cause _)

end Eval
end ScriptEngine
