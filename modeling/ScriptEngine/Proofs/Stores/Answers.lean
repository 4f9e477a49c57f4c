import ScriptEngine.Eval.Statement
import ScriptEngine.Proofs.Stores.Construction

/-!
# What pure functions answer

The functions of the evaluator that only look at a heap tell no more than the heap and their arguments
do.  Most of them answer with a scalar, which tells nothing at all.
-/

namespace ScriptEngine

/-- A type whose values tell nothing. -/
class Plain (α : Type) [Carrier α] : Prop where
  knows : ∀ (w : World) (a : α), Knows w a

namespace Plain

variable {α β : Type} [Carrier α] [Carrier β]

instance : Plain Unit := ⟨fun _ => knows_unit⟩
instance : Plain PUnit := ⟨fun _ => knows_unit⟩
instance : Plain Bool := ⟨fun _ => knows_bool⟩
instance : Plain Nat := ⟨fun _ => knows_nat⟩
instance : Plain String := ⟨fun _ => knows_string⟩
instance : Plain Int64 := ⟨fun _ => knows_int⟩
instance : Plain Ordering := ⟨fun _ => knows_ordering⟩
instance : Plain Decimal.Double := ⟨fun _ => knows_double⟩
instance : Plain Cause := ⟨fun _ => knows_cause⟩
instance : Plain TypeExpr := ⟨fun _ => knows_type⟩
instance : Plain Method := ⟨fun _ => knows_method⟩
instance : Plain Channel.Arm := ⟨fun _ => knows_arm⟩

instance [Plain α] : Plain (Option α) where
  knows w
    | none => knows_none
    | some a => Plain.knows w a

instance [Plain α] : Plain (List α) where
  knows w _ := knows_list.mpr fun a _ => Plain.knows w a

instance [Plain α] [Plain β] : Plain (α × β) where
  knows w p := knows_pair.mpr ⟨Plain.knows w p.1, Plain.knows w p.2⟩

instance [Plain α] [Plain β] : Plain (Except α β) where
  knows w
    | .error a => Plain.knows w a
    | .ok b => Plain.knows w b

end Plain

attribute [grind ←] Plain.knows
attribute [grind ←] knows_vnil knows_vbool knows_vint knows_vfloat knows_vstr knows_varray knows_vmap
attribute [grind ←] knows_vthread knows_vnative knows_vmodule
attribute [grind ←] knows_vfunction knows_vstatic knows_vfuture knows_none knows_nil knows_unit
attribute [grind ←] KeyedMap.knows_empty KeyedMap.knows_get? KeyedMap.knows_keys
attribute [grind ←] KeyedMap.knows_values Knows.getD
attribute [grind =] knows_some knows_ok knows_error knows_pair knows_inl knows_inr knows_cons
attribute [grind =] knows_answer_value knows_answer_items knows_answer_pairs
attribute [grind =] knows_object knows_collection knows_instanceMethod knows_builtinMethod
attribute [grind =] knows_vclass knows_vinterface

section

variable {α β : Type} [Carrier β] {w : World}

@[grind ←]
theorem Knows.except_bind
    {x : Except Cause α} {f : α → Except Cause β} (hf : ∀ a, Knows w (f a)) :
    Knows w (x >>= f) := by
  cases x with
  | error c =>
      exact knows_cause c
  | ok a =>
      exact hf a

@[grind ←]
theorem Knows.except_map
    {x : Except Cause α} {f : α → β} (hf : ∀ a, Knows w (f a)) :
    Knows w (x.map f) := by
  cases x with
  | error c =>
      exact knows_cause c
  | ok a =>
      exact hf a

@[grind ←]
theorem Knows.option_map
    {o : Option α} {f : α → β} (hf : ∀ a, Knows w (f a)) :
    Knows w (o.map f) := by
  cases o with
  | none =>
      exact knows_none
  | some a =>
      exact hf a

@[simp, grind =]
theorem knows_except_pure
    {b : β} :
    Knows w (pure b : Except Cause β) ↔ Knows w b := by
  rfl

@[simp, grind ←]
theorem knows_except_throw
    {c : Cause} :
    Knows w (throw c : Except Cause β) := by
  exact knows_cause c

end

variable {w : World} {h : Heap} {args : List Value} {v : Value}

namespace Builtin

/-! ### Arguments -/

@[simp, grind ←]
theorem knows_count
    (n : Nat) :
    Knows w (count n) := by
  exact knows_vint

@[grind ←]
theorem knows_place
    (i : Option Nat) :
    Knows w (place i) := by
  cases i with
  | none =>
      exact knows_vint
  | some n =>
      exact knows_count n

@[grind ←]
theorem knows_argument
    (hargs : Knows w args) (i : Nat) :
    Knows w (argument args i) := by
  rw [argument, List.getD_eq_getElem?_getD]
  cases hget : args[i]? with
  | none =>
      exact knows_vnil
  | some v =>
      exact hargs.of_mem (List.mem_of_getElem? hget)

@[grind ←]
theorem knows_firstCallback
    (hargs : Knows w args) (what : String) :
    Knows w (firstCallback h args what) := by
  unfold firstCallback
  grind

@[grind ←]
theorem knows_argsForElement
    {callee item : Value} (hitem : Knows w item) (i : Nat) :
    Knows w (argsForElement callee item i) := by
  unfold argsForElement
  grind

/-! ### Strings and numbers -/

@[grind ←]
theorem knows_repeated
    (s : String) (n : Int64) :
    Knows w (Eval.repeated s n) := by
  unfold Eval.repeated
  grind

@[grind ←]
theorem knows_substring
    (s : String) :
    Knows w (substring h s args) := by
  unfold substring
  grind

@[grind ←]
theorem knows_repeatString
    (s : String) :
    Knows w (repeatString h s args) := by
  unfold repeatString
  grind

@[grind ←]
theorem knows_padString
    (s name : String) :
    Knows w (padString h s name args) := by
  unfold padString
  grind

@[grind ←]
theorem knows_stringMethod
    (s name : String) :
    Knows w (stringMethod h s name args) := by
  unfold stringMethod
  split <;> grind

@[grind ←]
theorem knows_powNumber
    (receiver : Value) (x : Decimal.Double) :
    Knows w (powNumber h receiver x args) := by
  unfold powNumber
  grind

@[grind ←]
theorem knows_toFixed
    (x : Decimal.Double) :
    Knows w (toFixed h x args) := by
  unfold toFixed
  grind

@[grind ←]
theorem knows_numberMethod
    (receiver : Value) (x : Decimal.Double) (name : String) :
    Knows w (numberMethod h receiver x name args) := by
  unfold numberMethod
  split <;> grind

@[grind ←]
theorem knows_intMethod
    (i : Int64) (name : String) :
    Knows w (intMethod h i name args) := by
  unfold intMethod
  split <;> grind

@[grind ←]
theorem knows_floatMethod
    (x : Decimal.Double) (name : String) :
    Knows w (floatMethod h x name args) := by
  unfold floatMethod
  split <;> grind

@[grind ←]
theorem knows_callScalar
    (v : Value) (name : String) :
    Knows w (callScalar h v name args) := by
  unfold callScalar
  grind

/-! ### Instances and classes -/

@[grind ←]
theorem knows_callInstance
    {o : Instance} (ho : Knows w o) (name : String) :
    Knows w (callInstance h o name args) := by
  have hcls : Knows w o.cls := (knows_instance.mp ho).2
  unfold callInstance
  split <;> grind

@[grind ←]
theorem knows_constantNamed
    (hh : Knows w h) (c : ClassDef) :
    Knows w (constantNamed h c args) := by
  refine .except_bind fun _ => .except_bind fun wanted => ?_
  split
  · next v heq =>
      exact (knows_statics.mp (hh.staticsOf c.id)).2.of_mem (List.mem_of_find?_eq_some heq)
  · exact knows_except_throw

/-! ### Builtin functions -/

@[grind ←]
theorem knows_toInt : Knows w (toInt h args) := by
  unfold toInt
  grind

@[grind ←]
theorem knows_toFloat : Knows w (toFloat h args) := by
  unfold toFloat
  grind

@[grind ←]
theorem knows_lengthOf : Knows w (lengthOf h args) := by
  unfold lengthOf
  grind

@[grind ←]
theorem knows_instanceOfArg : Knows w (instanceOfArg h args) := by
  unfold instanceOfArg
  grind

@[grind ←]
theorem knows_currentTime : Knows w (currentTime h args) := by
  unfold currentTime
  grind

@[grind ←]
theorem knows_applyMath
    (f : MathFunction) :
    Knows w (applyMath h f args) := by
  unfold applyMath
  grind

@[grind ←]
theorem knows_absolute : Knows w (absolute h args) := by
  unfold absolute
  grind

@[grind ←]
theorem knows_power : Knows w (power h args) := by
  unfold power
  grind

@[grind ←]
theorem knows_extreme
    (greatest : Bool) :
    Knows w (extreme h greatest args) := by
  unfold extreme
  grind

theorem knows_pureNative
    (f : Native) (r : Except Cause Value) (hr : pureNative h f args = some r) :
    Knows w r := by
  unfold pureNative at hr
  split at hr <;> grind

theorem knows_member?
    (m : Module) (name : String) :
    Knows w (m.member? name) := by
  unfold Module.member?
  split <;> grind

/-- A sequence of integers tells nothing. -/
@[grind ←]
theorem knows_progression
    (start step : Int) (count : Nat) :
    Knows w (Eval.progression start step count) := by
  refine knows_array.mpr fun v hv => ?_
  obtain ⟨i, -, rfl⟩ := Array.mem_map.mp hv
  exact knows_vint

@[grind ←]
theorem knows_rangeItems : Knows w (rangeItems h args) := by
  have hnext (start stop step : Int64) : Knows w (do
      if step = 0 then throw (.other "range() step must not be zero")
      let n := stepCount start.toInt stop.toInt step.toInt
      if maxSequenceLength < n then
        throw (.sizeLimit s!"range({start}, {stop}, {step})")
      pure (Eval.progression start.toInt step.toInt n) : Except Cause (Array Value)) := by
    grind
  unfold rangeItems
  refine .except_bind fun _ => ?_
  dsimp only
  split
  · refine .except_bind fun bounds => ?_
    split
    · exact .except_bind fun step => hnext _ _ step
    · exact hnext _ _ 1
  · refine .except_bind fun start => .except_bind fun stop => .except_bind fun bounds => ?_
    split
    · exact .except_bind fun step => hnext _ _ step
    · exact hnext _ _ 1

/-! ### Arrays and maps -/

@[grind ←]
theorem knows_queryArray
    (hh : Knows w h) (id : Nat) (name : String) :
    Knows w (queryArray h id name args) := by
  have hitem (i : Nat) : Knows w ((h.array id).getD i .nil) := (hh.array id).array_getD knows_vnil i
  unfold queryArray
  split <;> grind

@[grind ←]
theorem knows_sliceItems
    {items : Array Value} (hitems : Knows w items) :
    Knows w (sliceItems h items args) := by
  have hpart (start stop : Nat) : Knows w (items.extract start stop) := by
    refine hitems.of_array_subset fun v hv => ?_
    obtain ⟨i, hi, rfl⟩ := Array.mem_extract_iff_getElem.mp hv
    exact Array.getElem_mem _
  unfold sliceItems
  grind

@[grind ←]
theorem knows_concatItems
    {items : Array Value} (hh : Knows w h) (hitems : Knows w items) (hargs : Knows w args) :
    Knows w (concatItems h items args) := by
  unfold concatItems
  induction args generalizing items with
  | nil =>
      exact hitems
  | cons v rest ih =>
      obtain ⟨hv, hrest⟩ := knows_cons.mp hargs
      rw [List.foldl_cons]
      refine ih ?_ hrest
      split
      · exact hitems.append (hh.array _)
      · exact hitems.push hv

@[grind ←]
theorem knows_deriveArray
    (hh : Knows w h) (hargs : Knows w args) (id : Nat) (name : String) :
    Knows w (deriveArray h id name args) := by
  have hitems := hh.array id
  have hreverse : Knows w (h.array id).reverse :=
    hitems.of_array_subset fun v hv => Array.mem_reverse.mp hv
  unfold deriveArray
  dsimp only
  split
  · cases hslice : sliceItems h (h.array id) args with
    | error c =>
        exact knows_cause c
    | ok items =>
        have hknown : Knows w (sliceItems h (h.array id) args) := knows_sliceItems hitems
        rw [hslice] at hknown
        exact hknown
  · exact knows_concatItems hh hitems hargs
  · exact hreverse
  · simp

/-- A change of an array stores nothing but arguments. -/
@[grind ←]
theorem knows_updateArray
    (hh : Knows w h) (hargs : Knows w args) (id : Nat) (name : String) :
    Knows w (updateArray h id name args) := by
  have hitem (i : Nat) : Knows w ((h.array id).getD i .nil) := (hh.array id).array_getD knows_vnil i
  have harg (i : Nat) := knows_argument hargs i
  have happend : Knows w fun xs : Array Value => xs ++ args :=
    knows_change.mpr fun u xs hu hxs => by
      rw [← knows_toList, Array.toList_appendList]
      exact knows_append.mpr ⟨hxs, hargs.mono hu⟩
  have herase (i : Nat) : Knows w fun xs : Array Value => xs.eraseIdxIfInBounds i :=
    knows_change.mpr fun u xs hu hxs => hxs.of_array_subset fun v hv => mem_of_mem_erase hv
  unfold updateArray
  split
  · refine .except_bind fun _ => .except_bind fun i => knows_pair.mpr ⟨knows_vnil, ?_⟩
    exact knows_change.mpr fun u xs hu hxs => hxs.setIfInBounds ((harg 1).mono hu)
  · exact knows_pair.mpr ⟨knows_vnil, happend⟩
  · exact knows_pair.mpr ⟨knows_vnil, happend⟩
  · refine knows_pair.mpr ⟨hitem _, knows_change.mpr fun u xs hu hxs => ?_⟩
    rw [← knows_toList, Array.toList_pop]
    exact Knows.of_subset (l := xs.toList) hxs (List.dropLast_subset _)
  · exact knows_pair.mpr ⟨hitem _, herase 0⟩
  · refine knows_pair.mpr ⟨knows_vnil, knows_change.mpr fun u xs hu hxs => ?_⟩
    exact (knows_toArray.mpr (hargs.mono hu)).append hxs
  · refine .except_bind fun _ => .except_bind fun i => knows_pair.mpr ⟨knows_vnil, ?_⟩
    exact knows_change.mpr fun u xs hu hxs => hxs.insertIdxIfInBounds ((harg 1).mono hu)
  · exact .except_bind fun _ => .except_bind fun i => knows_pair.mpr ⟨hitem _, herase i⟩
  · exact knows_pair.mpr ⟨knows_vnil, knows_change.mpr fun u xs hu hxs => knows_toArray.mpr knows_nil⟩
  · simp

@[grind ←]
theorem knows_queryMap
    {m : KeyedMap} (hm : Knows w m) (hargs : Knows w args) (name : String) :
    Knows w (queryMap h m name args) := by
  have hentries : Knows w m.entries.toList := hm
  unfold queryMap
  split
  · refine .except_bind fun _ => ?_
    exact (KeyedMap.knows_get? hm _).getD (knows_argument hargs 1)
  all_goals grind

end Builtin

namespace Eval

/-! ### Operators, names and elements -/

@[grind ←]
theorem knows_arithmetic
    (op : BinaryOp) (f : Decimal.Double → Decimal.Double → Decimal.Double) (a b : Value) :
    Knows w (arithmetic h op f a b) := by
  unfold arithmetic
  grind

@[grind ←]
theorem knows_operate
    (op : BinaryOp) (a b : Value) :
    Knows w (operate h op a b) := by
  unfold operate
  split <;> grind

@[grind ←]
theorem knows_lookupName
    (hh : Knows w h) (env : Env) (name : String) :
    Knows w (lookupName h env name) := by
  have hlookup (name : String) := Scopes.knows_lookup hh.scopes env name
  unfold lookupName
  split
  · next v heq =>
      have hv := hlookup name
      rw [heq] at hv
      exact hv
  · split
    · next v heq =>
        obtain ⟨m, -, hm⟩ := Option.bind_eq_some_iff.mp heq
        have hv := hlookup m
        rw [hm] at hv
        exact hv
    · simp

@[grind ←]
theorem knows_rangeOf
    (first last : Value) :
    Knows w (rangeOf h first last) := by
  unfold rangeOf rangeValues
  grind

@[grind ←]
theorem knows_elementAt
    {items : Array Value} (hitems : Knows w items) (key : Value) :
    Knows w (elementAt h items key) := by
  exact .except_map fun i => hitems.array_getD knows_vnil i

@[grind ←]
theorem knows_elementOf
    (hh : Knows w h) (v key : Value) :
    Knows w (elementOf h v key) := by
  unfold elementOf
  split
  · exact knows_elementAt (hh.array _) key
  · exact .except_map fun i => knows_vstr
  · exact (KeyedMap.knows_get? (hh.map _) _).getD knows_vnil
  · next c =>
      have hcontents := hh.collection c.id
      split
      · next xs heq =>
          rw [heq] at hcontents
          exact knows_elementAt hcontents key
      · next m heq =>
          rw [heq] at hcontents
          exact (KeyedMap.knows_get? hcontents _).getD knows_vnil
  · simp

/-- The elements of a value are numbered. -/
theorem knows_indexed
    {items : List Value} (hitems : Knows w items) :
    Knows w (items.zipIdx.map fun p => (Builtin.count p.2, p.1)) := by
  refine knows_list.mpr fun e he => ?_
  obtain ⟨p, hp, rfl⟩ := List.mem_map.mp he
  refine knows_pair.mpr ⟨Builtin.knows_count _, hitems.of_mem ?_⟩
  exact List.fst_mem_of_mem_zipIdx hp

@[grind ←]
theorem knows_itemsOf
    (hh : Knows w h) (v : Value) :
    Knows w (itemsOf h v) := by
  unfold itemsOf
  dsimp only
  split
  · exact knows_pair.mpr ⟨knows_indexed (hh.array _), knows_bool _⟩
  · refine knows_pair.mpr ⟨knows_indexed ?_, knows_bool _⟩
    simp [knows_list]
  · exact knows_pair.mpr ⟨hh.map _, knows_bool _⟩
  · next c =>
      have hcontents := hh.collection c.id
      split
      · next xs heq =>
          rw [heq] at hcontents
          exact knows_pair.mpr ⟨knows_indexed hcontents, knows_bool _⟩
      · next m heq =>
          rw [heq] at hcontents
          exact knows_pair.mpr ⟨hcontents, knows_bool _⟩
  · exact knows_pair.mpr ⟨knows_nil, knows_bool _⟩
  · simp

end Eval
end ScriptEngine
