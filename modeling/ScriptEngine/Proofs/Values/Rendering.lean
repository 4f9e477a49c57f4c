import ScriptEngine.Proofs.Evaluation.Arguments
import ScriptEngine.Proofs.Evaluation.Laws
import ScriptEngine.Proofs.Maps.Texts
import ScriptEngine.Proofs.Values.Parts

/-!
# Rendering

A value is written in two ways.  `Heap.display` runs no code of the program.  The task `text` has an
object with a `toString` method without parameters write itself.

**Makeup.**  Both put the text of an array, a map or a collection together from the texts of what it
holds, in the same order and with the same marks between them, and they write all other values alike.

**Nesting.**  Both are given a depth, which is not felt at a value that is not part of itself.  Then the
one text is the other with the objects that write themselves replaced (`text_returns`), and where there
are none the texts are the same.

A record without a method of its own is written plainly as a whole.  So the objects that it has as
components do not write themselves.
-/

namespace ScriptEngine

namespace Heap

/-! ### Makeup -/

/-- What the text of a value is put together from. -/
inductive Makeup
  | plain (s : String)
  | items (kind : CollectionKind) (xs : List Value)
  | entries (es : List (Value × Value))

namespace Makeup

/-- The values whose texts are put together. -/
def parts : Makeup → List Value
  | plain _ => []
  | items _ xs => xs
  | entries es => es.flatMap fun e => [e.1, e.2]

/-- The text, from the texts of the parts. -/
def join (f : Value → String) : Makeup → String
  | plain s => s
  | items kind xs => itemsText kind (xs.map f)
  | entries es => entriesText (es.map fun e => (f e.1, f e.2))

/-- The text, where the texts of the parts are computed one after another. -/
def joinM (f : Value → Eval String) : Makeup → Eval String
  | plain s => pure s
  | items kind xs => do pure (itemsText kind (← xs.mapM f))
  | entries es => do
    let texts ← es.mapM fun e => do
      let k ← f e.1
      let v ← f e.2
      pure (k, v)
    pure (entriesText texts)

/-- A text that is put together from possible texts of the parts. -/
def Joins (R : Value → String → Prop) : Makeup → String → Prop
  | plain t, s => s = t
  | items kind xs, s => ∃ texts, List.Forall₂ R xs texts ∧ s = itemsText kind texts
  | entries es, s =>
    ∃ texts, List.Forall₂ (fun e t => R e.1 t.1 ∧ R e.2 t.2) es texts ∧ s = entriesText texts

variable {f : Value → String} {F : Value → Eval String} {R R' : Value → String → Prop}
variable {mk : Makeup} {ctx : Context} {h : Heap}

theorem mem_parts_entries
    {es : List (Value × Value)} {e : Value × Value} (he : e ∈ es) :
    e.1 ∈ (entries es).parts ∧ e.2 ∈ (entries es).parts :=
  ⟨List.mem_flatMap.mpr ⟨e, he, List.mem_cons_self⟩,
    List.mem_flatMap.mpr ⟨e, he, List.mem_cons_of_mem _ List.mem_cons_self⟩⟩

theorem join_congr
    {g : Value → String} (hparts : ∀ w ∈ mk.parts, f w = g w) :
    mk.join f = mk.join g := by
  cases mk with
  | plain s =>
      rfl
  | items kind xs =>
      exact congrArg (itemsText kind) (List.map_congr_left hparts)
  | entries es =>
      refine congrArg entriesText (List.map_congr_left fun e he => ?_)
      rw [hparts e.1 (mem_parts_entries he).1, hparts e.2 (mem_parts_entries he).2]

theorem forall₂_iff_eq_map
    {α β : Type} {R : α → β → Prop} {f : α → β} {as : List α} {bs : List β}
    (hR : ∀ a ∈ as, ∀ b, R a b ↔ b = f a) :
    List.Forall₂ R as bs ↔ bs = as.map f := by
  induction as generalizing bs with
  | nil =>
      rw [List.forall₂_nil_left_iff, List.map_nil]
  | cons a as ih =>
      have hrest (bs : List β) : List.Forall₂ R as bs ↔ bs = as.map f :=
        ih fun a' ha' => hR a' (List.mem_cons_of_mem a ha')
      constructor
      · rintro (- | ⟨ha, has⟩)
        rw [(hR a List.mem_cons_self _).mp ha, (hrest _).mp has, List.map_cons]
      · rintro rfl
        exact .cons ((hR a List.mem_cons_self _).mpr rfl) ((hrest _).mpr rfl)

/-- Where each part has one possible text, so has the whole. -/
theorem joins_iff
    {s : String} (hparts : ∀ w ∈ mk.parts, ∀ t, R w t ↔ t = f w) :
    mk.Joins R s ↔ s = mk.join f := by
  cases mk with
  | plain t =>
      exact Iff.rfl
  | items kind xs =>
      have hxs : ∀ w ∈ xs, ∀ t, R w t ↔ t = f w := hparts
      simp only [Joins, forall₂_iff_eq_map hxs, exists_eq_left, join]
  | entries es =>
      have hentry : ∀ e ∈ es, ∀ t : String × String,
          R e.1 t.1 ∧ R e.2 t.2 ↔ t = (f e.1, f e.2) := by
        intro e he t
        rw [hparts e.1 (mem_parts_entries he).1, hparts e.2 (mem_parts_entries he).2, Prod.ext_iff]
      simp only [Joins, forall₂_iff_eq_map hentry, exists_eq_left, join]

/-- A list whose texts are known before is gone through without a change. -/
theorem mapM_value
    {α β : Type} {f : α → Eval β} {g : α → β} {as : List α}
    (hf : ∀ a ∈ as, f a ctx h = .value (g a) h) :
    as.mapM f ctx h = .value (as.map g) h := by
  induction as with
  | nil =>
      rfl
  | cons a as ih =>
      rw [List.mapM_cons, Eval.bind_apply, hf a List.mem_cons_self, Res.bind, Eval.bind_apply,
        ih fun a' ha' => hf a' (List.mem_cons_of_mem a ha')]
      rfl

/-- Where the parts have their texts at once, so has the whole. -/
theorem joinM_value
    (hparts : ∀ w ∈ mk.parts, F w ctx h = .value (f w) h) :
    mk.joinM F ctx h = .value (mk.join f) h := by
  cases mk with
  | plain s =>
      rfl
  | items kind xs =>
      have htexts : xs.mapM F ctx h = .value (xs.map f) h := mapM_value hparts
      rw [joinM, Eval.bind_apply, htexts]
      rfl
  | entries es =>
      rw [joinM, Eval.bind_apply, mapM_value (g := fun e => (f e.1, f e.2))]
      · rfl
      · intro e he
        rw [Eval.bind_apply, hparts e.1 (mem_parts_entries he).1, Res.bind, Eval.bind_apply,
          hparts e.2 (mem_parts_entries he).2]
        rfl

/-- Where the parts come to their texts, so does the whole. -/
theorem joinM_ensures
    {I : Heap → Prop} {S : Signal → Heap → Prop} {W : Prop} (hI : I h)
    (hparts : ∀ w ∈ mk.parts, ∀ h, I h →
      (F w ctx h).Ensures I ⟨fun s h' => I h' ∧ R w s, S, W⟩) :
    (mk.joinM F ctx h).Ensures I ⟨fun s h' => I h' ∧ mk.Joins R s, S, W⟩ := by
  cases mk with
  | plain s =>
      exact .value ⟨hI, rfl⟩
  | items kind xs =>
      rw [joinM, Eval.bind_apply]
      refine (Res.Ensures.mapM hI hparts).bind ?_
      rintro texts h' ⟨hI', htexts⟩
      exact .value ⟨hI', texts, htexts, rfl⟩
  | entries es =>
      rw [joinM, Eval.bind_apply]
      refine (Res.Ensures.mapM (R := fun e t => R e.1 t.1 ∧ R e.2 t.2) hI fun e he h hI => ?_).bind ?_
      · rw [Eval.bind_apply]
        refine (hparts e.1 (mem_parts_entries he).1 h hI).bind ?_
        rintro k h₁ ⟨hI₁, hk⟩
        rw [Eval.bind_apply]
        refine (hparts e.2 (mem_parts_entries he).2 h₁ hI₁).bind ?_
        rintro v h₂ ⟨hI₂, hv⟩
        exact .value ⟨hI₂, hk, hv⟩
      · rintro texts h' ⟨hI', htexts⟩
        exact .value ⟨hI', texts, htexts, rfl⟩

end Makeup

def makeup (h : Heap) : Value → Makeup
  | .array id => .items .list (h.array id).toList
  | .map id => .entries (h.map id).entries.toList
  | .collection c =>
    match h.collection c.id with
    | .items xs => .items c.kind xs.toList
    | .entries m => .entries m.entries.toList
  | v => .plain (h.display v)

/-- The values that the plain text of a value shows. -/
def displayed (h : Heap) (v : Value) : List Value :=
  match v with
  | .object o =>
    match o.constant, o.cls.kind with
    | none, .record => o.cls.own.components.map fun c => (h.field? o c.name).getD .nil
    | _, _ => []
  | v => (h.makeup v).parts

variable {h : Heap} {v w : Value} {n m : Nat}

/-- The text of anything but an instance is put together from the texts of the parts. -/
theorem displayWithin_of_ne_object
    (n : Nat) (hv : ∀ o, v ≠ .object o) :
    h.displayWithin (n + 1) v = (h.makeup v).join (h.displayWithin n) ∧
      h.displayed v = (h.makeup v).parts := by
  cases v with
  | object o =>
      exact absurd rfl (hv o)
  | collection c =>
      refine ⟨?_, rfl⟩
      simp only [displayWithin, makeup]
      cases h.collection c.id with
      | items xs =>
          rfl
      | entries m =>
          rfl
  | _ =>
      exact ⟨rfl, rfl⟩

/-- The depth of a text is not felt where what it shows ends before. -/
theorem displayWithin_eq
    (hends : EndsWithin h.displayed n v) (hle : n ≤ m) :
    h.displayWithin m v = h.displayWithin n v := by
  induction hends generalizing m with
  | @mk n v _ ih =>
      obtain ⟨m, rfl⟩ := Nat.exists_eq_succ_of_ne_zero (Nat.ne_zero_of_lt hle)
      have hparts : ∀ w ∈ h.displayed v, h.displayWithin m w = h.displayWithin n w :=
        fun w hw => ih w hw (Nat.le_of_succ_le_succ hle)
      by_cases hv : ∃ o, v = .object o
      · obtain ⟨o, rfl⟩ := hv
        simp only [displayWithin]
        rw [displayed] at hparts
        cases hconstant : o.constant with
        | some constant =>
            rfl
        | none =>
            cases hkind : o.cls.kind with
            | record =>
                rw [hconstant, hkind] at hparts
                have hcomponents : ∀ c ∈ o.cls.own.components,
                    h.displayWithin m ((h.field? o c.name).getD .nil) =
                      h.displayWithin n ((h.field? o c.name).getD .nil) :=
                  fun c hc => hparts _ (List.mem_map_of_mem hc)
                simp only
                rw [List.map_congr_left fun c hc => by rw [hcomponents c hc]]
            | cls =>
                rfl
            | enumeration =>
                rfl
      · rw [not_exists] at hv
        rw [(displayWithin_of_ne_object m hv).1, (displayWithin_of_ne_object n hv).1]
        rw [(displayWithin_of_ne_object n hv).2] at hparts
        exact Makeup.join_congr hparts

/-- A text is put together from the texts of the parts. -/
theorem displayWithin_succ
    (hends : EndsWithin h.displayed (n + 1) v) (hle : n + 1 ≤ h.depthLimit) :
    h.displayWithin (n + 1) v = (h.makeup v).join (h.displayWithin n) := by
  by_cases hv : ∃ o, v = .object o
  · obtain ⟨o, rfl⟩ := hv
    exact (displayWithin_eq hends hle).symm
  · exact (displayWithin_of_ne_object n (not_exists.mp hv)).1

theorem parts_subset_displayed
    (h : Heap) (v : Value) :
    (h.makeup v).parts ⊆ h.displayed v := by
  by_cases hv : ∃ o, v = .object o
  · obtain ⟨o, rfl⟩ := hv
    exact List.nil_subset _
  · rw [(displayWithin_of_ne_object 0 (not_exists.mp hv)).2]
    exact List.Subset.refl _

end Heap

/-! ### Objects that write themselves -/

/-- An object with its method that gives its text. -/
def Value.writer? : Value → Option (Instance × Method)
  | .object o => ((o.cls.usableMethods "toString").find? (·.params.isEmpty)).map (o, ·)
  | _ => none

theorem Value.eq_of_writer?
    {v : Value} {o : Instance} {m : Method} (hwriter : v.writer? = some (o, m)) :
    v = .object o := by
  unfold Value.writer? at hwriter
  split at hwriter
  · obtain ⟨_, -, heq⟩ := Option.map_eq_some_iff.mp hwriter
    cases heq
    rfl
  · cases hwriter

namespace Heap

/-- The text of a value is put together from the text of another one, directly or by way of others. -/
def Writes (h : Heap) : Value → Value → Prop :=
  Relation.ReflTransGen fun v w => w ∈ (h.makeup v).parts

/-- A text of a value, down to a depth, in which each object that writes itself has some text of its
own. -/
def RendersWithin (h : Heap) (own : Instance → String → Prop) : Nat → Value → String → Prop
  | 0, _, _ => False
  | n + 1, v, s =>
    match v.writer? with
    | some (o, _) => own o s
    | none => (h.makeup v).Joins (RendersWithin h own n) s

/-- If the objects that write themselves are written plainly, the text is the plain one. -/
theorem rendersWithin_display_iff
    {h : Heap} {v : Value} {n : Nat} {s : String} (hends : EndsWithin h.displayed n v)
    (hle : n ≤ h.depthLimit) :
    h.RendersWithin (fun o s => s = h.display (.object o)) n v s ↔ s = h.displayWithin n v := by
  induction hends generalizing s with
  | @mk n v hparts ih =>
      unfold RendersWithin
      split
      · next o m hwriter =>
          have hv := Value.eq_of_writer? hwriter
          rw [hv, ← displayWithin_eq (hv ▸ .mk hparts) hle]
          rfl
      · rw [displayWithin_succ (.mk hparts) hle]
        exact Makeup.joins_iff fun w hw t =>
          ih w (parts_subset_displayed h v hw) (Nat.le_of_succ_le hle)

end Heap

namespace Eval

variable {E : Engine} {I : Heap → Prop} {own : Instance → String → Prop} {v : Value}
variable {ctx : Context} {h : Heap} {n fuel spare : Nat}

/-- The text of what the method of an object gives. -/
def ownText (E : Engine) (o : Instance) (m : Method) : Eval String := do
  match ← runMethod E o m [] default with
  | .str s => pure s
  | other => E.text other

theorem textOf_apply
    (E : Engine) (v : Value) (ctx : Context) (h : Heap) :
    textOf E v ctx h =
      match v.writer? with
      | some (o, m) => ownText E o m ctx h
      | none => (h.makeup v).joinM E.text ctx h := by
  unfold textOf
  rw [heap_bind_apply]
  cases v with
  | object o =>
      simp only [Value.writer?]
      cases (o.cls.usableMethods "toString").find? (·.params.isEmpty) with
      | none =>
          rfl
      | some m =>
          rfl
  | collection c =>
      simp only [Value.writer?, Heap.makeup]
      cases h.collection c.id with
      | items xs =>
          rfl
      | entries m =>
          rfl
  | _ =>
      rfl

/-- Where no object writes itself, no code of the program runs, and the text is the plain one. -/
theorem text_value
    (hends : EndsWithin h.displayed n v) (hfuel : n ≤ fuel) (hdepth : n ≤ h.depthLimit)
    (hplain : ∀ w, h.Writes v w → w.writer? = none) :
    run fuel (.text v) ctx h = .value (h.displayWithin n v) h := by
  induction hends generalizing fuel with
  | @mk n v hparts ih =>
      obtain ⟨fuel, rfl⟩ := Nat.exists_eq_succ_of_ne_zero (Nat.ne_zero_of_lt hfuel)
      show textOf ⟨run fuel, fuel⟩ v ctx h = _
      rw [textOf_apply, hplain v .refl, Heap.displayWithin_succ (.mk hparts) hdepth]
      refine Heap.Makeup.joinM_value fun w hw => ?_
      exact ih w (Heap.parts_subset_displayed h v hw) (Nat.le_of_succ_le_succ hfuel)
        (Nat.le_of_succ_le hdepth) fun u hu => hplain u (.head hw hu)

/-- Where the objects that write themselves come to texts of their own and leave the rest as it is, the
text is a plain one with these texts in it. -/
theorem text_returns
    {h₁ : Heap} (hends : EndsWithin h.displayed n v) (hfuel : n + spare ≤ fuel)
    (hsame : ∀ h', I h' → ∀ w, h.Writes v w → w.writer? = none → h'.makeup w = h.makeup w)
    (hown : ∀ w o m, h.Writes v w → w.writer? = some (o, m) → ∀ k ≥ spare, ∀ h', I h' →
      (ownText ⟨run k, k⟩ o m ctx h').Ensures I (.returns fun s h'' => I h'' ∧ own o s))
    (hI : I h₁) :
    (run fuel (.text v) ctx h₁).Ensures I
      (.returns fun s h' => I h' ∧ h.RendersWithin own n v s) := by
  induction hends generalizing fuel h₁ with
  | @mk n v hparts ih =>
      obtain ⟨fuel, rfl⟩ := Nat.exists_eq_succ_of_ne_zero (n := fuel) (by omega)
      show (textOf ⟨run fuel, fuel⟩ v ctx h₁).Ensures I _
      rw [textOf_apply]
      unfold Heap.RendersWithin
      cases hwriter : v.writer? with
      | some om =>
          exact hown v om.1 om.2 .refl hwriter fuel (by omega) h₁ hI
      | none =>
          rw [hsame h₁ hI v .refl hwriter]
          refine Heap.Makeup.joinM_ensures hI fun w hw h₂ hI₂ => ?_
          exact ih w (Heap.parts_subset_displayed h v hw) (by omega)
            (fun h' hI' u hu => hsame h' hI' u (.head hw hu))
            (fun u o m hu => hown u o m (.head hw hu)) hI₂

/-- What is left behind by the objects that write themselves and can be come by, is left behind by the
text as a whole. -/
theorem text_leaves
    {P : Value → Prop} (hclosed : ∀ h, I h → ∀ w, P w → ∀ u ∈ (h.makeup w).parts, P u)
    (hown : ∀ w, P w → ∀ o m, w.writer? = some (o, m) → ∀ k < fuel, ∀ h, I h →
      (ownText ⟨run k, k⟩ o m ctx h).Ensures I (.leaves I))
    (hv : P v) (hI : I h) :
    (run fuel (.text v) ctx h).Ensures I (.leaves I) := by
  induction fuel generalizing v h with
  | zero =>
      exact .outOfFuel trivial
  | succ fuel ih =>
      show (textOf ⟨run fuel, fuel⟩ v ctx h).Ensures I _
      rw [textOf_apply]
      cases hwriter : v.writer? with
      | some om =>
          exact hown v hv om.1 om.2 hwriter fuel (Nat.lt_succ_self fuel) h hI
      | none =>
          have htext (w : Value) (hw : P w) (h' : Heap) (hI' : I h') :
              (run fuel (.text w) ctx h').Ensures I
                ⟨fun _ h'' => I h'' ∧ True, fun _ => I, True⟩ :=
            (ih (fun w hw o m hm k hk => hown w hw o m hm k (Nat.lt_succ_of_lt hk)) hw hI').imp
              (fun _ _ hI'' => ⟨hI'', trivial⟩) (fun _ _ => id) id
          exact (Heap.Makeup.joinM_ensures (R := fun _ _ => True) hI fun w hw =>
            htext w (hclosed h hI v hv w hw)).imp (fun _ _ hs => hs.1) (fun _ _ => id) id

end Eval

namespace Heap

/-! ### Values that are not part of themselves -/

variable {h : Heap} {v w : Value}

theorem Writes.displayed
    (hw : h.Writes v w) :
    Relation.ReflTransGen (fun v w => w ∈ h.displayed v) v w :=
  Relation.ReflTransGen.mono (fun v _ hw => parts_subset_displayed h v hw) v w hw

/-- Every instance that the plain text of a value shows is one of the heap. -/
def Presents (h : Heap) (v : Value) : Prop :=
  ∀ o, Relation.ReflTransGen (fun v w => w ∈ h.displayed v) v (.object o) → h.Owns o

theorem Presents.part
    (hv : h.Presents v) (hw : w ∈ h.displayed v) :
    h.Presents w :=
  fun o ho => hv o (.head hw ho)

/-- A value whose text shows others is one of the heap. -/
inductive Shows (h : Heap) : Value → Prop
  | array {id : Nat} : id < h.arrays.size → Shows h (.array id)
  | map {id : Nat} : id < h.maps.size → Shows h (.map id)
  | collection {c : Collection} : c.id < h.collections.size → Shows h (.collection c)
  | object {o : Instance} : h.Owns o → Shows h (.object o)

theorem Presents.shows
    (hv : h.Presents v) (hne : h.displayed v ≠ []) :
    h.Shows v := by
  cases v with
  | array id =>
      refine .array (Nat.lt_of_not_le fun hle => hne ?_)
      simp [displayed, makeup, Makeup.parts, array, hle]
  | map id =>
      refine .map (Nat.lt_of_not_le fun hle => hne ?_)
      have hempty : h.map id = default := by simp [map, hle]
      have hparts : h.displayed (.map id) = (h.makeup (.map id)).parts := rfl
      rw [hparts, makeup, hempty]
      rfl
  | collection c =>
      refine .collection (Nat.lt_of_not_le fun hle => hne ?_)
      have hempty : h.collection c.id = default := by simp [collection, hle]
      have hparts : h.displayed (.collection c) = (h.makeup (.collection c)).parts := rfl
      rw [hparts, makeup, hempty]
      rfl
  | object o =>
      exact .object (hv o .refl)
  | _ =>
      exact absurd rfl hne

/-- Where a value stands that shows others: arrays come before maps, collections and instances. -/
def standing (h : Heap) : Value → Nat
  | .array id => id
  | .map id => h.arrays.size + id
  | .collection c => h.arrays.size + h.maps.size + c.id
  | .object o => h.arrays.size + h.maps.size + h.collections.size + o.id
  | _ => 0

theorem displayed_placed
    (h : Heap) :
    Placed h.displayed h.Presents h.standing
      (h.arrays.size + h.maps.size + h.collections.size + h.objects.size) where
  part v hv w hw := hv.part hw
  lt v hv hne := by
    cases hv.shows hne with
    | array hid => simp only [standing]; omega
    | map hid => simp only [standing]; omega
    | collection hid => simp only [standing]; omega
    | object ho => exact Nat.add_lt_add_left ho.id_lt _
  parts_eq v w hv hw hvne hwne hplace := by
    cases hv.shows hvne with
    | array hid =>
        cases hw.shows hwne with
        | array hid' =>
            exact congrArg _ (congrArg _ hplace)
        | map _ | collection _ | object _ =>
            exact absurd hplace (by simp only [standing]; omega)
    | map hid =>
        cases hw.shows hwne with
        | map hid' =>
            rw [Nat.add_left_cancel hplace]
        | array _ | collection _ | object _ =>
            exact absurd hplace (by simp only [standing]; omega)
    | @collection c hid =>
        cases hw.shows hwne with
        | @collection c' hid' =>
            have hid : c.id = c'.id := Nat.add_left_cancel hplace
            show (h.makeup (.collection c)).parts = (h.makeup (.collection c')).parts
            simp only [makeup, hid]
            cases h.collection c'.id with
            | items xs => rfl
            | entries m => rfl
        | array _ | map _ | object _ =>
            exact absurd hplace (by simp only [standing]; omega)
    | @object o ho =>
        cases hw.shows hwne with
        | @object o' ho' =>
            have hid : o.id = o'.id := Nat.add_left_cancel hplace
            rw [ho.eq_of_id ho' hid]
        | array _ | map _ | collection _ =>
            exact absurd hplace (by simp only [standing]; omega)

/-- A text shows a value that is not part of itself down to the end. -/
theorem endsWithin_depthLimit
    (hv : h.Presents v) (hacyclic : AcyclicFrom h.displayed v) :
    EndsWithin h.displayed h.depthLimit v := by
  refine (endsWithin_of_acyclic (displayed_placed h) hv hacyclic).mono ?_
  rw [depthLimit]
  omega

end Heap

/-- A value that is not part of itself has as its text the plain one with the objects that write
themselves replaced by their texts.  Where there are none, it is the plain one. -/
theorem Eval.text_of_acyclic
    (h : Heap) (v : Value) (hv : h.Presents v) (hacyclic : AcyclicFrom h.displayed v)
    (fuel spare : Nat) (hfuel : h.depthLimit + spare ≤ fuel) (ctx : Context) :
    (∀ s, h.RendersWithin (fun o s => s = h.display (.object o)) h.depthLimit v s ↔
      s = h.display v) ∧
    ((∀ w, h.Writes v w → w.writer? = none) →
      Eval.run fuel (.text v) ctx h = .value (h.display v) h) ∧
    ∀ (own : Instance → String → Prop) (I : Heap → Prop), I h →
      (∀ h', I h' → ∀ w, h.Writes v w → w.writer? = none → h'.makeup w = h.makeup w) →
      (∀ w o m, h.Writes v w → w.writer? = some (o, m) → ∀ k ≥ spare, ∀ h', I h' →
        (Eval.ownText ⟨Eval.run k, k⟩ o m ctx h').Ensures I
          (.returns fun s h'' => I h'' ∧ own o s)) →
      (Eval.run fuel (.text v) ctx h).Ensures I
        (.returns fun s h' => I h' ∧ h.RendersWithin own h.depthLimit v s) := by
  have hends := Heap.endsWithin_depthLimit hv hacyclic
  refine ⟨fun s => ?_, fun hplain => ?_, fun own I hI hsame hown => ?_⟩
  · exact Heap.rendersWithin_display_iff hends (Nat.le_refl _)
  · exact Eval.text_value hends (by omega) (Nat.le_refl _) hplain
  · exact Eval.text_returns hends hfuel hsame hown hI

/-! #### Words -/

def wordMethod : Method where
  name := "toString"
  owner := "Word"
  typeParams := []
  params := []
  returns := none
  body := some [.ret (some (.string "word" default)) default]
  visibility := .visible
  isStatic := false
  closure := []

/-- An instance whose method gives a word. -/
def word : Instance :=
  ⟨0, ⟨{ (default : ClassLayer) with
      name := "Word"
      methods := [wordMethod]
      owned := List.forall_mem_singleton.mpr rfl }, []⟩, [], none⟩

/-- An array of a word and a number. -/
def words : Heap :=
  { Heap.empty with
    arrays := #[#[.object word, .int 1]]
    objects := #[.new ⟨word, ∅, false, true, []⟩] }

namespace words

theorem endsWithin : EndsWithin words.displayed 2 (.array 0) := by
  refine .mk fun w hw => .mk ?_
  rcases List.mem_cons.mp hw with rfl | hw
  · exact nofun
  · rw [List.mem_singleton.mp hw]
    exact nofun

/-- A word writes itself, and changes nothing but the scopes. -/
theorem ownText_value
    {k : Nat} (hk : 3 ≤ k) (ctx : Context) (hdepth : ctx.depth < ctx.limit) (h : Heap) :
    ∃ h', Eval.ownText ⟨Eval.run k, k⟩ word wordMethod ctx h = .value "word" h' ∧
      Eval.SameStores h h' := by
  obtain ⟨k, rfl⟩ := Nat.exists_eq_add_of_le' hk
  let i : Invocation :=
    { name := "Word.toString"
      params := []
      returns := none
      body := .block [.ret (some (.string "word" default)) default]
      closure := []
      receiver := some ⟨word, word.cls⟩
      bindings := []
      locals := [] }
  have hword (env : Env) (ctx : Context) (m : Memory) :
      Eval.Gives (Eval.run (k + 2) (.eval (.string "word" default) env)) ctx m (.str "word") m :=
    .tracked _ (.pure _ ctx m)
  have hreturn (env : Env) (ctx : Context) (m : Memory) :
      Eval.Gives (do
        let v ← Eval.run (k + 2) (.eval (.string "word" default) env)
        pure (Flow.ret v)) ctx m (Flow.ret (.str "word")) m :=
    (hword env ctx m).bind (.pure _ ctx m)
  have hlist (env : Env) (ctx : Context) (m : Memory) :
      Eval.Gives (Eval.execList ⟨Eval.run (k + 3), k + 3⟩ env .nil
        [.ret (some (.string "word" default)) default]) ctx m (.ret (.str "word")) m :=
    .bind (.tracked _ (.mapFault _ (hreturn env ctx m))) (.pure _ ctx m)
  obtain ⟨scopes, hcall⟩ := Eval.invoke_gives (E := ⟨Eval.run (k + 3), k + 3⟩)
    (v := .str "word") i [] (.ret (.str "word")) default h rfl nofun rfl hdepth
    (fun _ ctx m _ => .tracked _ (hlist _ ctx m)) rfl
  obtain ⟨h', hvalue, hsame⟩ := hcall.sameStores
  have hrun : Eval.runMethod ⟨Eval.run (k + 3), k + 3⟩ word wordMethod [] default ctx h =
      Eval.invoke ⟨Eval.run (k + 3), k + 3⟩ i [] default ctx h :=
    rfl
  refine ⟨h', ?_, hsame⟩
  rw [Eval.ownText, Eval.bind_apply, hrun, hvalue]
  rfl

theorem cases_of_displayed
    {w : Value} (hw : Relation.ReflTransGen (fun v w => w ∈ words.displayed v) (.array 0) w) :
    w = .array 0 ∨ w = .object word ∨ w = .int 1 := by
  induction hw with
  | refl =>
      exact .inl rfl
  | tail _ hw ih =>
      rcases ih with rfl | rfl | rfl
      · rcases List.mem_cons.mp hw with rfl | hw
        · exact .inr (.inl rfl)
        · exact .inr (.inr (List.mem_singleton.mp hw))
      · nomatch hw
      · nomatch hw

theorem presents : words.Presents (.array 0) := by
  intro o ho
  rcases cases_of_displayed ho with heq | heq | heq
  · nomatch heq
  · cases heq
    exact ⟨Nat.one_pos, rfl⟩
  · nomatch heq

end words

theorem text_of_words :
    (Eval.run 10 (.text (.array 0)) ⟨0, 10, none⟩ words).Ensures (Eval.SameStores words)
      (.returns fun s _ => s = "[word, 1]") := by
  obtain ⟨-, -, hwritten⟩ := Eval.text_of_acyclic words (.array 0) words.presents
    words.endsWithin.acyclicFrom 10 3 (by decide) ⟨0, 10, none⟩
  have hrun := hwritten (fun _ s => s = "word") (Eval.SameStores words) ⟨_, _, rfl⟩ ?_ ?_
  · refine hrun.imp_value ?_
    rintro s h' ⟨-, texts, htexts, rfl⟩
    obtain - | ⟨hword, - | ⟨hone, hend⟩⟩ := htexts
    cases hword
    cases hone
    cases hend
    rfl
  · rintro h' ⟨_, _, rfl⟩ w hw -
    rcases words.cases_of_displayed (hw.displayed) with rfl | rfl | rfl
    · rfl
    · rfl
    · rfl
  · rintro w o m hw hwriter k hk h' hsame
    rcases words.cases_of_displayed (hw.displayed) with rfl | rfl | rfl
    · nomatch hwriter
    · cases hwriter
      obtain ⟨h'', hvalue, hsame'⟩ := words.ownText_value hk ⟨0, 10, none⟩ (by decide) h'
      rw [hvalue]
      exact .value ⟨hsame.trans hsame', rfl⟩
    · nomatch hwriter

end ScriptEngine
