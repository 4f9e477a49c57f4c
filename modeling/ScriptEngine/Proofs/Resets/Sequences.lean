import ScriptEngine.Proofs.Resets.Answers
import ScriptEngine.Proofs.Resets.Calls

/-!
# Arrays, maps and collections that overlook what is old

The methods of sequences and maps overlook what is old if the engine does, which runs their
callbacks.
-/

namespace ScriptEngine
namespace Oblivious

variable {t : Epoch} {E : Engine} {args : List Value} {v : Value} {id : Nat} {α β : Type}
variable {P : β → Prop}

/-! ### Questions to the heap -/

section Questions

variable [Dated α]

/-- What is asked of the heap does not depend on what is old. -/
theorem ask
    {f : Heap → Except Cause α} {g : α → Eval β}
    (hsame : ∀ h, h.Renewed t → f (h.forget t) = f h) (hf : ∀ h, h.Renewed t → Recent t (f h))
    (hg : ∀ a, Recent t a → Oblivious t (g a) P) :
    Oblivious t (Eval.heap >>= fun h => Eval.ofExcept (f h) >>= g) P := by
  refine look (fun h hh => ?_) fun h hh => ?_
  · rw [hsame h hh]
  · exact (ofExcept fun a ha => (hf h hh).of_ok ha).bind hg

/-- The answer is all that is asked for. -/
theorem answer
    {f : Heap → Except Cause α} (hsame : ∀ h, h.Renewed t → f (h.forget t) = f h)
    (hf : ∀ h, h.Renewed t → Recent t (f h)) :
    Oblivious t (Eval.heap >>= fun h => Eval.ofExcept (f h)) (Recent t) := by
  refine look (fun h hh => ?_) fun h hh => ofExcept fun a ha => (hf h hh).of_ok ha
  rw [hsame h hh]

/-- Something that is looked up in the heap. -/
theorem tell
    {f : Heap → α} (hsame : ∀ h, h.Renewed t → f (h.forget t) = f h)
    (hf : ∀ h, h.Renewed t → Recent t (f h)) :
    Oblivious t (Eval.heap >>= fun h => Pure.pure (f h)) (Recent t) := by
  refine look (fun h hh => ?_) fun h hh => pure (hf h hh)
  rw [hsame h hh]

end Questions

/-- A fault that tells the type of a value. -/
theorem faultAt
    {f : Heap → Cause} (hsame : ∀ h, h.Renewed t → f (h.forget t) = f h) :
    Oblivious t (Eval.heap >>= fun h => (Eval.fault (f h) : Eval β)) P := by
  refine look (fun h hh => ?_) fun h _ => fault _
  rw [hsame h hh]

/-- Only the number of the arguments is asked for. -/
theorem counted
    {r : Except Cause Unit} {g : Unit → Eval β} (hg : Oblivious t (g ()) P) :
    Oblivious t (Eval.ofExcept r >>= g) P := by
  exact (ofExcept (P := fun _ => True) fun _ _ => trivial).bind fun _ _ => hg

section Engines

variable [Unmindful t E]

/-! ### Callbacks for elements -/

section Items

variable {callee : Value} {items : List Value}

theorem callFor
    {item : Value} (i : Nat) (hcallee : Recent t callee) (hitem : Recent t item) :
    Oblivious t (Builtin.callFor E callee item i) (Recent t) := by
  exact callback hcallee (Builtin.recent_argsForElement hitem i)

theorem mapItems
    (hcallee : Recent t callee) (hitems : Recent t items) :
    Oblivious t (Builtin.mapItems E callee items) (Recent t) := by
  exact mapM fun p hp => callFor p.2 hcallee (hitems p.1 (List.fst_mem_of_mem_zipIdx hp))

theorem filterItems
    (hcallee : Recent t callee) (hitems : Recent t items) :
    Oblivious t (Builtin.filterItems E callee items) (Recent t) := by
  refine filterMapM fun p hp => ?_
  have hitem : Recent t p.1 := hitems p.1 (List.fst_mem_of_mem_zipIdx hp)
  refine (callFor p.2 hcallee hitem).bind fun v _ => ite (fun _ => pure ?_) fun _ => pure nofun
  exact recent_some.mpr hitem

theorem visitItems
    (hcallee : Recent t callee) (hitems : Recent t items) :
    Oblivious t (Builtin.visitItems E callee items) fun _ => True := by
  refine forM fun p hp => ?_
  exact (callFor p.2 hcallee (hitems p.1 (List.fst_mem_of_mem_zipIdx hp))).bind fun _ _ =>
    pure trivial

theorem findItem
    (wanted : Bool) (hcallee : Recent t callee) (hitems : Recent t items) :
    Oblivious t (Builtin.findItem E callee wanted items) fun found =>
      ∀ p, found = some p → Recent t p.1 := by
  have hitem (p : Value × Nat) (hp : p ∈ items.zipIdx) : Recent t p.1 :=
    hitems p.1 (List.fst_mem_of_mem_zipIdx hp)
  exact findM? hitem fun p hp => (callFor p.2 hcallee (hitem p hp)).bind fun v _ => pure trivial

end Items

/-! ### Sorting -/

section Sorting

theorem compareItems
    {comparator : Option Value} {a b : Value} (hc : Recent t comparator) (ha : Recent t a)
    (hb : Recent t b) :
    Oblivious t (Builtin.compareItems E comparator a b) fun _ => True := by
  cases comparator with
  | none =>
      refine look (fun h hh => ?_) fun h _ => ?_
      · rw [Eval.compareValues_forget hh ha hb]
      · exact (ofExcept (P := fun _ => True) fun _ _ => trivial).bind fun _ _ => pure trivial
  | some f =>
      have harguments : Recent t [a, b] := by simp [ha, hb]
      refine (callback (recent_some.mp hc) harguments).bind fun v hv =>
        look (fun h hh => ?_) fun h _ => ?_
      · rw [Builtin.orderFrom_forget hh hv]
      · exact ofExcept fun _ _ => trivial

omit [Unmindful t E]

variable {order : Value → Value → Eval Ordering}

/-- What is sorted are the elements that were there. -/
theorem mergeItems
    {merged left right : List Value}
    (horder : ∀ a b, Recent t a → Recent t b → Oblivious t (order a b) fun _ => True)
    (hmerged : Recent t merged) (hleft : Recent t left) (hright : Recent t right) :
    Oblivious t (Builtin.mergeItems order merged left right) (Recent t) := by
  fun_induction Builtin.mergeItems order merged left right with
  | case1 merged right =>
      exact pure (recent_append.mpr ⟨recent_reverse.mpr hmerged, hright⟩)
  | case2 merged left _ =>
      exact pure (recent_append.mpr ⟨recent_reverse.mpr hmerged, hleft⟩)
  | case3 merged a left b right ih ih' =>
      obtain ⟨ha, hrestLeft⟩ := recent_cons.mp hleft
      obtain ⟨hb, hrestRight⟩ := recent_cons.mp hright
      refine (horder a b ha hb).bind fun o _ => ite (fun _ => ?_) fun _ => ?_
      · exact ih (recent_cons.mpr ⟨hb, hmerged⟩) hleft hrestRight
      · exact ih' (recent_cons.mpr ⟨ha, hmerged⟩) hrestLeft hright

theorem sortItems
    {items : List Value}
    (horder : ∀ a b, Recent t a → Recent t b → Oblivious t (order a b) fun _ => True)
    (hitems : Recent t items) :
    Oblivious t (Builtin.sortItems order items) (Recent t) := by
  fun_induction Builtin.sortItems order items with
  | case1 items _ =>
      exact pure hitems
  | case2 items _ ih ih' =>
      refine (ih (hitems.of_subset (List.take_subset _ _))).bind fun left hleft => ?_
      refine (ih' (hitems.of_subset (List.drop_subset _ _))).bind fun right hright => ?_
      exact mergeItems horder recent_nil hleft hright

end Sorting

/-! ### Arrays -/

theorem separatorText
    (hargs : Recent t args) :
    Oblivious t (Builtin.separatorText E args) fun _ => True := by
  unfold Builtin.separatorText
  split
  · exact pure trivial
  · exact pure trivial
  · exact Unmindful.text (recent_cons.mp hargs).1

/-- The elements are taken up one by one. -/
theorem reduceItems
    {callee init : Value} {items : List Value} (hcallee : Recent t callee) (hinit : Recent t init)
    (hitems : Recent t items) :
    Oblivious t (items.foldlM (fun acc item => Eval.callback E callee [acc, item]) init)
      (Recent t) := by
  refine foldlM hinit fun acc hacc item hitem => callback hcallee ?_
  simpa using ⟨hacc, hitems item hitem⟩

theorem recent_head?
    (hargs : Recent t args) :
    Recent t args.head? := by
  exact fun a ha => hargs a (List.mem_of_mem_head? ha)

theorem modifyArray
    {f : Array Value → Array Value} (hid : t.arrays ≤ id) (hf : Recent t f) :
    Oblivious t (Eval.modify (·.modifyArray id f)) fun _ => True := by
  exact modify (.modifyArray hid hf)

/-- A callback that is looked for among the arguments. -/
theorem withCallback
    {h : Heap} {g : Value → Eval β} (hargs : Recent t args) (what : String)
    (hg : ∀ f, Recent t f → Oblivious t (g f) P) :
    Oblivious t (Eval.ofExcept (Builtin.firstCallback h args what) >>= g) P := by
  have hcallee := Builtin.recent_firstCallback (h := h) hargs what
  exact (ofExcept fun f hf => hcallee.of_ok hf).bind hg

theorem traverseArray
    (hid : t.arrays ≤ id) (name : String) (hargs : Recent t args) :
    Oblivious t (Builtin.traverseArray E id name args) (Recent t) := by
  refine look (fun h hh => ?_) fun h hh => ?_
  · simp only [Heap.array_forget hid, Builtin.firstCallback_forget hh hargs]
  have hitems : Recent t (h.array id).toList := recent_toList.mpr (hh.array hid)
  dsimp only
  split
  · refine (separatorText hargs).bind fun separator _ => look (fun h hh => ?_) fun h hh => ?_
    · rw [Heap.array_forget hid]
    · exact (texts (recent_toList.mpr (hh.array hid))).bind fun parts _ => pure recent_vstr
  · have horder (a b : Value) (ha : Recent t a) (hb : Recent t b) :=
      compareItems (E := E) (recent_head? hargs) ha hb
    refine (sortItems horder hitems).bind fun sorted hsorted => ?_
    refine (modifyArray hid fun _ _ => recent_toArray.mpr hsorted).bind fun _ _ => pure recent_vnil
  · refine withCallback hargs _ fun f hf => (mapItems hf hitems).bind fun vs hvs => makeArray hvs
  · refine withCallback hargs _ fun f hf => (filterItems hf hitems).bind fun vs hvs => makeArray hvs
  · refine counted (withCallback hargs _ fun f hf => ?_)
    split
    · next initial heq =>
        exact reduceItems hf (hargs initial (List.mem_of_getElem? heq)) hitems
    · refine reduceItems hf ?_ (hitems.of_subset fun v hv => List.mem_of_mem_tail hv)
      rw [List.headD_eq_head?_getD]
      exact Recent.getD (recent_head? hitems) recent_vnil
  · exact withCallback hargs _ fun f hf => (visitItems hf hitems).bind fun _ _ => pure recent_vnil
  · refine withCallback hargs _ fun f hf => (findItem true hf hitems).bind fun found hfound =>
      pure ?_
    exact Recent.getD (Recent.map_some hfound) recent_vnil
  · refine withCallback hargs _ fun f hf => (findItem true hf hitems).bind fun found _ => pure ?_
    exact Builtin.recent_place _
  · exact withCallback hargs _ fun f hf => (findItem true hf hitems).bind fun _ _ =>
      pure recent_vbool
  · exact withCallback hargs _ fun f hf => (findItem false hf hitems).bind fun _ _ =>
      pure recent_vbool
  · exact (Unmindful.text (v := .array id) hid).bind fun _ _ => pure recent_vstr
  · exact fault _

theorem callArray
    (hid : t.arrays ≤ id) (name : String) (hargs : Recent t args) :
    Oblivious t (Builtin.callArray E id name args) (Recent t) := by
  refine ask (fun h hh => Builtin.queryArray_forget hh hargs hid name)
    (fun h hh => Builtin.recent_queryArray hh hid name) fun found hfound => ?_
  cases found with
  | some v =>
      exact pure (recent_some.mp hfound)
  | none =>
      refine ask (fun h hh => Builtin.updateArray_forget hh hargs hid name)
        (fun h hh => Builtin.recent_updateArray hh hid hargs name) fun update hupdate => ?_
      cases update with
      | some u =>
          obtain ⟨hv, hchange⟩ := recent_some.mp hupdate
          exact (modifyArray hid hchange).bind fun _ _ => pure hv
      | none =>
          refine ask (fun h hh => Builtin.deriveArray_forget hh hargs hid name)
            (fun h hh => Builtin.recent_deriveArray hh hid hargs name) fun derived hderived => ?_
          cases derived with
          | some items =>
              exact change (.newArray (recent_some.mp hderived))
          | none =>
              exact traverseArray hid name hargs

/-! ### Maps -/

omit [Unmindful t E] in
theorem toValue
    {a : Builtin.MapAnswer} (ha : Recent t a) :
    Oblivious t a.toValue (Recent t) := by
  cases a with
  | value v =>
      exact pure ha
  | items vs =>
      exact makeArray ha
  | pairs es =>
      refine (mapM (P := Recent t) fun e he => makeArray ?_).bind fun rows hrows => makeArray hrows
      simpa using ha e he

theorem visitEntries
    {entries : List (Value × Value)} (hargs : Recent t args) (hentries : Recent t entries) :
    Oblivious t (Builtin.visitEntries E args entries) fun _ => True := by
  refine look (fun h hh => ?_) fun h _ => withCallback hargs _ fun f hf => forM fun e he => ?_
  · rw [Builtin.firstCallback_forget hh hargs]
  · have hboth : Recent t [e.1, e.2] := by simpa using hentries e he
    exact (callback hf hboth).bind fun _ _ => pure trivial

omit [Unmindful t E] in
theorem insertInMap
    {key : Value} (hid : t.maps ≤ id) {k : Heap → KeyImage}
    (hsame : ∀ h, h.Renewed t → k (h.forget t) = k h) (hkey : Recent t key) (hv : Recent t v) :
    Oblivious t (Eval.modify fun h => h.insertInMap id (k h) key v) fun _ => True := by
  refine modify fun h hh => ?_
  rw [hsame h hh]
  exact Overlooks.insertInMap hid hkey hv h hh

omit [Unmindful t E] in
theorem eraseFromMap
    {key : Value} (hid : t.maps ≤ id) (hkey : Recent t key) :
    Oblivious t (Builtin.eraseFromMap id key) (Recent t) := by
  refine change fun h hh => ?_
  have herase := Overlooks.modifyMap hid (fun m hm => KeyedMap.recent_erase hm (h.key key)) h hh
  simp only [Heap.key_forget hh hkey, Heap.map_forget hid, herase.1]
  exact ⟨trivial, herase.2, (KeyedMap.recent_get? (hh.map hid) _).getD recent_vnil⟩

theorem callMap
    (hid : t.maps ≤ id) (name : String) (hargs : Recent t args) :
    Oblivious t (Builtin.callMap E id name args) (Recent t) := by
  have hkey := recent_argument hargs 0
  have hinsert := insertInMap (k := fun h => h.key (Builtin.argument args 0)) hid
    (fun h hh => Heap.key_forget hh hkey) hkey (recent_argument hargs 1)
  unfold Builtin.callMap
  split
  · exact counted (hinsert.bind fun _ _ => pure recent_vnil)
  · exact counted (hinsert.bind fun _ _ => pure recent_vnil)
  · exact counted (eraseFromMap hid hkey)
  · exact counted (eraseFromMap hid hkey)
  · refine (modify (.modifyMap hid fun _ _ => ?_)).bind fun _ _ => pure recent_vnil
    exact KeyedMap.recent_empty
  · refine look (fun h _ => ?_) fun h hh => ?_
    · rw [Heap.map_forget hid]
    · refine (visitEntries hargs ?_).bind fun _ _ => pure recent_vnil
      exact recent_toList.mpr (hh.map hid)
  · exact (Unmindful.text (v := .map id) hid).bind fun _ _ => pure recent_vstr
  · refine ask (fun h hh => ?_)
      (fun h hh => Builtin.recent_queryMap (hh.map hid) hargs name) fun a ha => ?_
    · rw [Heap.map_forget hid, Builtin.queryMap_forget hh hargs]
    · cases a with
      | some a =>
          exact toValue (recent_some.mp ha)
      | none =>
          exact fault _

end Engines

end Oblivious
end ScriptEngine
