import ScriptEngine.Proofs.Evaluation.Checks
import ScriptEngine.Proofs.Stores.Invocation

/-!
# Construction of instances

A construction gives the fields of the oldest ancestor their first values and those of the class itself
at last.  Where two classes declare a field of one name the nearer one comes later, so its type is
obeyed in the end.  Meanwhile the thread holds the instance with what is yet to befall it: that its fields
are filled, by code that runs on the instance, and that its constructor runs.

A record is made in one go, of components that obey their types.
-/

namespace ScriptEngine

/-- The names of the fields that a class declares itself. -/
def ClassDef.fieldNames (c : ClassDef) : List String := c.own.fields.map (·.name)

theorem ClassDef.mem_ownFillings
    {c : ClassDef} {name : String} (hname : name ∈ c.fieldNames) :
    .filled c.id name ∈ c.ownFillings := by
  obtain ⟨f, hf, rfl⟩ := List.mem_map.mp hname
  exact List.mem_flatMap.mpr ⟨f, hf, List.mem_cons_of_mem _ List.mem_cons_self⟩

namespace Instance

variable {o : Instance} {nearer older : List ClassDef} {c : ClassDef} {f : FieldDef} {name : String}
variable {v : Value}

/-- A value obeys the type of the nearest field of a name if it obeys that of the last one filled. -/
theorem admits_of_last
    (hlineage : o.cls.lineage = nearer ++ c :: older)
    (hnearer : ∀ d ∈ nearer, name ∉ d.fieldNames) (hf : f ∈ c.own.fields) (hname : f.name = name)
    (hv : ObeysOption v f.type (o.bindingsAt c.name)) :
    o.Admits name v := by
  intro d g hfound honly
  have hfirst : nearer.findSome? (fun d => (d.own.fields.find? (·.name == name)).map (d, ·)) =
      none := by
    refine List.findSome?_eq_none_iff.mpr fun d hd => ?_
    rw [Option.map_eq_none_iff, List.find?_eq_none]
    intro g hg heq
    exact hnearer d hd (List.mem_map.mpr ⟨g, hg, by simpa using heq⟩)
  obtain ⟨g', hg'⟩ : ∃ g', c.own.fields.find? (·.name == name) = some g' := by
    refine Option.isSome_iff_exists.mp (List.find?_isSome.mpr ⟨f, hf, ?_⟩)
    simpa using hname
  rw [ClassDef.fieldNamed, hlineage, List.findSome?_append, hfirst, Option.none_or,
    List.findSome?_cons, hg'] at hfound
  cases hfound
  have hmem : f ∈ c.own.fields.filter (·.name == name) := by
    simpa [hf] using hname
  rw [honly, List.mem_singleton] at hmem
  rw [← hmem]
  exact hv

/-- A field that is declared just once is declared by no nearer class. -/
theorem notMem_nearer_of_once
    (hlineage : o.cls.lineage = nearer ++ c :: older) (honce : o.DeclaresOnce name)
    (hf : f ∈ c.own.fields) (hname : f.name = name) :
    ∀ d ∈ nearer, name ∉ d.fieldNames := by
  intro d hd hmem
  obtain ⟨g, hg, hgname⟩ := List.mem_map.mp hmem
  obtain ⟨f', hall⟩ := honce
  rw [hlineage, List.flatMap_append, List.flatMap_cons, List.filter_append] at hall
  have hleft : g ∈ (nearer.flatMap (·.own.fields)).filter (·.name == name) := by
    simpa [hgname] using ⟨d, hd, hg⟩
  have hright : f ∈ (c.own.fields ++ older.flatMap (·.own.fields)).filter (·.name == name) := by
    simp [hf, hname]
  have hlength := congrArg List.length hall
  have hpos := List.length_pos_of_mem hleft
  have hpos' := List.length_pos_of_mem hright
  rw [List.length_append, List.length_singleton] at hlength
  omega

end Instance

/-! ### Filling fields -/

/-- A computation that fills fields of an instance under construction. -/
def Fills (S : World) (o : Instance) (before after : List BuildEvent) (x : Eval Unit) : Prop :=
  ∀ c k h rest, S ⊆ k.known → stores.inv k h → k.building = (o.id, before) :: rest →
    stores.Follows (fun out k' => k.known ⊆ k'.known ∧ k'.declaring = k.declaring ∧
      Knows k'.known out ∧ ∃ p, k'.building = (o.id, p) :: rest ∧ (out = .ok () → p = after))
      (x c h) k h

namespace Fills

variable {S : World} {o : Instance} {p q r : List BuildEvent} {α : Type} [Carrier α] {E : Engine}

/-- A computation that keeps the stores fills nothing. -/
theorem of_keeps
    {x : Eval Unit} (hx : Keeps S x) :
    Fills S o p p x := by
  intro c k h rest hk hinv hbuilding
  refine (hx c k h hk hinv).weaken fun out k' hends => ?_
  exact ⟨hends.known, hends.declaring, hends.told, p, hends.building.trans hbuilding, fun _ => rfl⟩

theorem bind
    {x : Eval α} {Q : α → Prop} {f : α → Eval Unit} (hx : Keeps S x Q)
    (hf : ∀ a, Q a → Fills (S ∪ carried a) o p q (f a)) :
    Fills S o p q (x >>= f) := by
  intro c k h rest hk hinv hbuilding
  rw [Eval.bind_apply]
  refine (hx c k h hk hinv).bind (fun a k' h' _ hinv' ha => ?_) fun s k' hs => ?_
  · have hnext := hf a (ha.holds a rfl) c k' h' rest
      (Set.union_subset (hk.trans ha.known) ha.told) hinv' (ha.building.trans hbuilding)
    refine hnext.weaken fun out k'' ⟨hknown, hdeclaring, htold, hp⟩ => ?_
    exact ⟨ha.known.trans hknown, hdeclaring.trans ha.declaring, htold, hp⟩
  · refine ⟨hs.known, hs.declaring, hs.told, p, hs.building.trans hbuilding, fun hok => ?_⟩
    cases hok

theorem andThen
    {x y : Eval Unit} (hx : Fills S o p q x) (hy : Fills S o q r y) :
    Fills S o p r (x >>= fun _ => y) := by
  intro c k h rest hk hinv hbuilding
  rw [Eval.bind_apply]
  refine (hx c k h rest hk hinv hbuilding).bind
    (fun _ k' h' _ hinv' ⟨hknown, hdeclaring, _, p', hp', heq⟩ => ?_)
    fun s k' ⟨hknown, hdeclaring, htold, p', hp', _⟩ => ?_
  · rw [heq rfl] at hp'
    refine (hy c k' h' rest (hk.trans hknown) hinv' hp').weaken
      fun out k'' ⟨hknown', hdeclaring', htold, hp⟩ => ?_
    exact ⟨hknown.trans hknown', hdeclaring'.trans hdeclaring, htold, hp⟩
  · refine ⟨hknown, hdeclaring, htold, p', hp', fun hok => ?_⟩
    cases hok

/-- What comes next befalls the instance. -/
theorem modify
    {e : BuildEvent} {f : Heap → Heap}
    (hf : ∀ k w h rest, S ⊆ w → k.building = (o.id, e :: p) :: rest →
      Change k w h { k with building := (o.id, p) :: rest } w (f h)) :
    Fills S o (e :: p) p (Eval.modify f) := by
  intro c k h rest hk hinv hbuilding
  refine ⟨{ k with building := (o.id, p) :: rest }, moves_of_path hinv fun w hs => ⟨w, .one ?_⟩,
    Set.Subset.rfl, rfl, knows_unit (), p, rfl, fun _ => rfl⟩
  exact hf k w h rest (hk.trans (hs.known k List.mem_cons_self)) hbuilding

/-- An initializer is to be evaluated. -/
theorem beginField
    {c : ClassDef} {id : ScopeId} (name : String) (closure : Env) (hframe : .frame id ⟨o, c⟩ ∈ S) :
    Fills S o (.begun c.id name :: p) p (Eval.modify (·.beginField name (id :: closure))) := by
  exact modify fun k w h rest hS hbuilding => .begin hbuilding (hS hframe)

/-- One field is filled. -/
theorem fillField
    {c : ClassDef} {name : String} {id : ScopeId} {v : Value} (closure : Env) (ho : Knows S o)
    (hframe : .frame id ⟨o, c⟩ ∈ S) (hv : Knows S v)
    (hlast : name ∉ BuildEvent.fieldsOf p → o.Admits name v)
    (honce : o.DeclaresOnce name → o.Admits name v) :
    Fills S o (.filled c.id name :: p) p (Eval.modify (·.fillField o name (id :: closure) v)) := by
  refine modify fun k w h rest hS hbuilding => ?_
  exact .fill hbuilding (knows_instance.mp (ho.mono hS)).1 (hS hframe) (hv.mono hS) hlast honce

/-- The constructor is to run. -/
theorem enter
    (S : World) (o : Instance) :
    Fills S o (.entered :: p) p (Eval.modify (·.tell o .entered)) := by
  exact modify fun k w h rest _ hbuilding => .enter hbuilding

/-- All fields are filled. -/
theorem markBuilt
    (o : Instance) (hp : BuildEvent.AllFilled p) :
    Fills S o p p (Eval.modify (·.markBuilt o)) := by
  intro c k h rest hk hinv hbuilding
  refine ⟨k, moves_of_path hinv fun w _ => ⟨w, .one (.complete hbuilding hp)⟩, Set.Subset.rfl, rfl,
    knows_unit (), p, hbuilding, fun _ => rfl⟩

/-- A frame is opened for code that runs on the instance; what comes then knows that. -/
theorem openFrame
    {c : ClassDef} {f : Env → Eval Unit} (closure : Env) (name : String) (ho : Knows S o)
    (hf : ∀ id, Fills (S ∪ {.frame id ⟨o, c⟩}) o p q (f (id :: closure))) :
    Fills S o p q (Eval.openFrame closure name (some ⟨o, c⟩) >>= f) := by
  intro ctx k h rest hk hinv hbuilding
  have hopen : stores.moves k h { k with known := k.known ∪ {.frame h.scopes.items.size ⟨o, c⟩} }
      { h with scopes := (h.scopes.enter closure name (some ⟨o, c⟩)).2 } := by
    refine moves_of_path hinv fun w hs => ?_
    have hknown : Knows w (some ⟨o, c⟩ : Option Receiver) :=
      ho.mono (hk.trans (hs.known k List.mem_cons_self))
    have hreceiver : (h.scopes.enter closure name (some ⟨o, c⟩)).2.receiverAt? h.scopes.items.size =
        some ⟨o, c⟩ := by
      rw [Scopes.receiverAt?, Scopes.enter, Scopes.scope_add, if_pos rfl]
      rfl
    exact ⟨_, .step (.step (.one (.quiet (.enter h closure name hknown)))
      (.notice hreceiver)) (.learn Set.subset_union_right)⟩
  refine Protocol.Follows.after hopen ?_
  refine (hf h.scopes.items.size ctx _ _ rest (Set.union_subset_union_left _ hk)
    (stores.moves_inv hopen) hbuilding).weaken fun out k' hends => ?_
  exact ⟨Set.subset_union_left.trans hends.1, hends.2⟩

theorem initFieldList
    [Careful E] {id : ScopeId} (nearer older : List ClassDef) (c : ClassDef) (fs : List FieldDef)
    (closure : Env) (ho : Knows S o) (hframe : .frame id ⟨o, c⟩ ∈ S)
    (hlineage : o.cls.lineage = nearer ++ c :: older) (hfs : ∀ f ∈ fs, f ∈ c.own.fields) :
    Fills S o
      ((fs.flatMap fun f => [.begun c.id f.name, .filled c.id f.name]) ++
        (nearer.reverse.flatMap ClassDef.ownFillings ++ [.entered]))
      (nearer.reverse.flatMap ClassDef.ownFillings ++ [.entered])
      (Eval.initFieldList E o (o.bindingsAt c.name) (id :: closure) fs) := by
  induction fs generalizing S with
  | nil =>
      exact of_keeps (.pure (knows_unit _) trivial)
  | cons f rest ih =>
      have hf := hfs f List.mem_cons_self
      have hrest := fun g hg => hfs g (List.mem_cons_of_mem _ hg)
      have hnext {T : World} {v : Value} (hT : Knows T o) (hT' : .frame id ⟨o, c⟩ ∈ T)
          (hv : Knows T v) :
          Fills T o
            (.filled c.id f.name ::
              ((rest.flatMap fun f => [.begun c.id f.name, .filled c.id f.name]) ++
                (nearer.reverse.flatMap ClassDef.ownFillings ++ [.entered])))
            (nearer.reverse.flatMap ClassDef.ownFillings ++ [.entered]) (do
              Eval.checkOption v f.type (o.bindingsAt c.name) s!"field '{f.name}' of {o.cls.name}"
              Eval.modify (·.fillField o f.name (id :: closure) v)
              Eval.initFieldList E o (o.bindingsAt c.name) (id :: closure) rest) := by
        refine bind (.checkOption _ _ _ _) fun _ hobeys => ?_
        refine andThen (fillField closure (hT.more _) (.inl hT') (hv.more _) (fun hnot => ?_)
          fun honce => ?_) (ih (hT.more _) (.inl hT') hrest)
        · refine Instance.admits_of_last hlineage (fun d hd hmem => hnot ⟨d.id, ?_⟩) hf rfl hobeys
          refine List.mem_append_right _ (List.mem_append_left _ (List.mem_flatMap.mpr ⟨d, ?_, ?_⟩))
          · exact List.mem_reverse.mpr hd
          · exact ClassDef.mem_ownFillings hmem
        · exact Instance.admits_of_last hlineage
            (Instance.notMem_nearer_of_once hlineage honce hf rfl) hf rfl hobeys
      unfold Eval.initFieldList
      refine andThen (beginField f.name closure hframe) ?_
      dsimp only
      split
      · next e he =>
          exact bind (Careful.eval S e _) fun v _ => hnext (ho.more _) (.inl hframe) (by simp)
      · exact hnext ho hframe knows_vnil

theorem fillFields
    [Careful E] (older cs : List ClassDef) (ho : Knows S o)
    (hlineage : o.cls.lineage = cs.reverse ++ older) :
    Fills S o (cs.flatMap ClassDef.ownFillings ++ [.entered]) [.entered] (Eval.fillFields E o cs) := by
  induction cs generalizing S older with
  | nil =>
      exact of_keeps (.pure (knows_unit _) trivial)
  | cons c rest ih =>
      have hnext {T : World} (hT : Knows T o) :
          Fills T o (rest.flatMap ClassDef.ownFillings ++ [.entered]) [.entered]
            (Eval.fillFields E o rest) :=
        ih (c :: older) hT (by simpa using hlineage)
      unfold Eval.fillFields
      dsimp only
      split
      · refine openFrame _ _ ho fun id => ?_
        have hfields := initFieldList (E := E) rest.reverse older c c.own.fields c.own.closure
          (ho.more {.frame id ⟨o, c⟩}) (.inr rfl) (by simpa using hlineage) fun f hf => hf
        rw [List.reverse_reverse] at hfields
        rw [List.flatMap_cons, List.append_assoc]
        exact andThen hfields (hnext (ho.more _))
      · next hempty =>
          have hnone : c.own.fields = [] := by simpa using hempty
          simp only [List.flatMap_cons, ClassDef.ownFillings, hnone, List.flatMap_nil, List.nil_append]
          exact hnext ho

end Fills

namespace Keeps

variable {S : World} {E : Engine} {α : Type} [Carrier α] {Q : α → Prop}

/-! ### Instances -/

/-- An evaluation that fails after a path. -/
theorem failed
    {k : Hold} {h h' : Heap} {s : Signal} (hinv : stores.inv k h) (hs : Knows k.known s)
    (hpath : ∀ w, Agree [k] w h → ∃ w', Path k w h k w' h') :
    stores.Follows (Ends k Q) (.raise s h' : Res α) k h := by
  refine ⟨k, moves_of_path hinv hpath, Set.Subset.rfl, rfl, rfl, hs, fun a ha => ?_⟩
  cases ha

/-- What is left of the course of a construction when the instance is built. -/
def leftBy : Option Method → List BuildEvent
  | some _ => []
  | none => [.entered]

/-- What builds an instance: its fields are filled before its constructor runs. -/
theorem build
    [Careful E] {o : Instance} {args : List Value} (m : Option Method) (site : Span)
    (ho : Knows S o) (hargs : Knows S args) :
    Fills S o o.cls.course (leftBy m) (Eval.build E o m args site) := by
  refine .andThen (.fillFields [] _ ho (by simp)) ?_
  cases m with
  | some m =>
      refine .andThen (.enter S o) ?_
      exact .bind (runMethod _ _ ho hargs) fun _ _ => .markBuilt o (.inl rfl)
  | none =>
      exact .markBuilt o (.inr rfl)

/-- The construction of an instance ends, whatever its outcome. -/
theorem finish
    {k : Hold} {h : Heap} {o : Instance} {p : List BuildEvent}
    {rest : List (Nat × List BuildEvent)}
    (hinv : stores.inv k h) (hbuilding : k.building = (o.id, p) :: rest) :
    stores.moves k h { k with building := rest } (h.endConstruction o) := by
  exact moves_of_path hinv fun w _ => ⟨_, .one (.finish hbuilding)⟩

/-- The construction of an instance begins. -/
theorem start
    {k : Hold} {h : Heap} {o : Instance} (hinv : stores.inv k h)
    (hid : o.id = h.objects.size) (hkind : o.cls.kind ≠ .record) (hcls : Knows k.known o.cls) :
    stores.moves k h ⟨k.known ∪ carried o, (o.id, o.cls.course) :: k.building, k.declaring⟩
      { h with objects := h.objects.push (.new ⟨o, ∅, true, false, []⟩) } := by
  refine moves_of_path hinv fun w hs => ?_
  have hknown : Knows w o.cls := hcls.mono (hs.known k List.mem_cons_self)
  refine ⟨_, .step (.one (.start hid hkind hknown)) (.learn ?_)⟩
  exact knows_instance.mpr ⟨Set.mem_union_right _ rfl, hknown.more _⟩

/-- An instance under construction is built, and it knows nothing of what comes then. -/
theorem construct
    [Careful E] {o : Instance} {args : List Value} {c : Context} {k : Hold} {h : Heap}
    {rest : List (Nat × List BuildEvent)} (m : Option Method) (site : Span) (hk : S ⊆ k.known)
    (ho : Knows S o) (hargs : Knows S args) (hinv : stores.inv k h)
    (hbuilding : k.building = (o.id, o.cls.course) :: rest) :
    stores.Follows (fun out k' => Ends { k with building := rest } (fun _ => True) out k' ∧
      Knows k'.known o) (Eval.construct E o m args site c h) k h := by
  have hnoted : stores.moves k h k (h.note (.building o m)) :=
    moves_of_path hinv fun w _ => ⟨_, .one (.quiet (.note w h _))⟩
  refine Protocol.Follows.after hnoted ?_
  show stores.Follows _ (Eval.afterwards (Eval.build E o m args site) (·.endConstruction o) c
    (h.note (.building o m))) k (h.note (.building o m))
  unfold Eval.afterwards
  rw [Eval.bind_apply, Eval.attempt_apply]
  have hbuild := build (E := E) m site ho hargs
  refine (hbuild c k _ rest hk (stores.moves_inv hnoted) hbuilding).attempt.bind
    (fun outcome k' h' _ hinv' ⟨_, heq, hknown, hdeclaring, htold, p, hp, _⟩ => ?_)
    fun s k' ⟨_, heq, _⟩ => ?_
  · cases heq
    have hmoves := finish hinv' hp
    have hends : Ends { k with building := rest } (fun _ => True) outcome
        { k' with building := rest } :=
      ⟨hknown, rfl, hdeclaring, htold, fun _ _ => trivial⟩
    have hknows : Knows k'.known o := (ho.mono hk).mono hknown
    cases outcome with
    | ok u =>
        exact ⟨_, hmoves, hends, hknows⟩
    | error s =>
        exact ⟨_, hmoves, hends, hknows⟩
  · cases heq

/-- An instance is made and built; what comes then knows it. -/
theorem construction
    [Careful E] {c : ClassDef} {typeArgs : List TypeExpr} {constant : Option (String × Nat)}
    {args : List Value} {f : Instance → Eval α} (m : Option Method) (site : Span)
    (hkind : c.kind ≠ .record) (hcls : Knows S c) (hargs : Knows S args)
    (hf : ∀ o, o.cls = c → o.constant = constant → Keeps (S ∪ carried o) (f o) Q) :
    Keeps S (do
      let o ← Eval.change fun h => h.newObject c typeArgs constant
      Eval.construct E o m args site
      f o) Q := by
  intro ctx k h hk hinv
  obtain ⟨o, ho⟩ : ∃ o : Instance, o = ⟨h.objects.size, c, typeArgs, constant⟩ := ⟨_, rfl⟩
  have hid : o.id = h.objects.size := by rw [ho]
  have hstart := start hinv hid (by rwa [ho]) (by rw [ho]; exact hcls.mono hk)
  have hS := Set.union_subset_union_left (carried o) hk
  -- the instance is there before anything else is done
  show stores.Follows (Ends k Q) ((Eval.construct E ⟨h.objects.size, c, typeArgs, constant⟩ m args
    site >>= fun _ => f ⟨h.objects.size, c, typeArgs, constant⟩) ctx
    { h with
      objects :=
        h.objects.push (.new ⟨⟨h.objects.size, c, typeArgs, constant⟩, ∅, true, false, []⟩) })
    k h
  rw [← ho]
  refine Protocol.Follows.after hstart ?_
  rw [Eval.bind_apply]
  refine (construct m site hS (Knows.self S o) (hargs.more _) (stores.moves_inv hstart) rfl).bind
    (fun _ k' h' _ hinv' ⟨hends, hknown⟩ => ?_) fun s k' ⟨hends, _⟩ => ?_
  · have hback : Ends k (fun _ : Unit => True) (.ok ()) k' :=
      ⟨Set.subset_union_left.trans hends.known, hends.building, hends.declaring, hends.told,
        fun _ _ => trivial⟩
    have hthen := hf o (by rw [ho]) (by rw [ho]) ctx k' h'
      (Set.union_subset (hk.trans hback.known) hknown) hinv'
    exact hthen.weaken fun out k'' hout => hback.trans hout
  · refine ⟨Set.subset_union_left.trans hends.known, hends.building, hends.declaring, hends.told,
      fun a ha => ?_⟩
    cases ha

/-! ### Records -/

/-- One more component of a record is stored. -/
theorem componentsObey_insert
    {o : Instance} {fields : Assoc Value} {q : Param} {v : Value} (hfields : o.ComponentsObey fields)
    (hq : q ∈ o.cls.own.components)
    (hv : ObeysOption v q.type (pairParams o.cls.own.typeParams o.typeArgs)) :
    o.ComponentsObey (fields.insert q.name v) := by
  intro p honly u hu
  rw [Assoc.find?_insert] at hu
  split at hu
  · next heq =>
      cases hu
      have hmem : q ∈ o.cls.own.components.filter (·.name == p.name) := by
        simp [hq, heq]
      rw [honly, List.mem_singleton] at hmem
      rw [← hmem]
      exact hv
  · exact hfields p honly u hu

/-- Components that have been checked against their types make a record. -/
theorem checkComponents
    {o : Instance} {fields : Assoc Value} {vs : List Value} (ps : List Param)
    (hfields : Knows S fields) (hvs : Knows S vs) (hobey : o.ComponentsObey fields)
    (hps : ∀ p ∈ ps, p ∈ o.cls.own.components) :
    Keeps S (Eval.checkComponents o.cls (pairParams o.cls.own.typeParams o.typeArgs) fields ps vs)
      o.ComponentsObey := by
  induction ps generalizing S vs fields with
  | nil =>
      exact pure hfields hobey
  | cons p ps ih =>
      cases vs with
      | nil =>
          exact pure hfields hobey
      | cons v vs =>
          obtain ⟨hv, hrest⟩ := knows_cons.mp hvs
          refine (checkOption _ _ _ _).bind fun _ hobeys => ?_
          exact ih ((hfields.insert hv).more _) (hrest.more _)
            (componentsObey_insert hobey (hps p List.mem_cons_self) hobeys)
            fun q hq => hps q (List.mem_cons_of_mem _ hq)

theorem instanceTypeArgs
    (c : ClassDef) (given : List TypeExpr) (ps : List Param) (args : List Value) :
    Keeps S (Eval.instanceTypeArgs c given ps args) := by
  unfold Eval.instanceTypeArgs
  dsimp only
  split
  · exact ite (fun _ => pure (by simp [knows_list]) trivial) fun _ => fault _
  · split
    · exact pure knows_nil trivial
    · exact heap.bind fun h _ => pure (by simp [knows_list]) trivial

theorem selectConstructor
    (cls : String) (table : List Method) (argc : Nat) :
    Keeps S (Eval.selectConstructor cls table argc) := by
  unfold Eval.selectConstructor
  split
  · exact ite (fun _ => pure knows_none trivial) fun _ => fault _
  · split
    · exact pure (by simp) trivial
    · exact fault _

theorem newRecord
    {c : ClassDef} {typeArgs : List TypeExpr} {fields : Assoc Value} (hkind : c.kind = .record)
    (hcls : Knows S c) (hfields : Knows S fields)
    (hobey : ∀ id, Instance.ComponentsObey ⟨id, c, typeArgs, none⟩ fields) :
    Keeps S (Eval.change fun h => h.newRecord c typeArgs fields) := by
  refine change fun k w h hS hs => ⟨w ∪ {.object ⟨h.objects.size, c, typeArgs, none⟩}, ?_, ?_⟩
  · exact .one (.record rfl hkind (hcls.mono hS) (hfields.mono hS) (hobey _))
  · exact ⟨knows_instance.mpr ⟨Set.mem_union_right _ rfl, (hcls.mono hS).more _⟩, trivial⟩

theorem makeRecord
    {c : ClassDef} {args : List Value} (given : List TypeExpr) (hkind : c.kind = .record)
    (hcls : Knows S c) (hargs : Knows S args) :
    Keeps S (Eval.makeRecord c given args) := by
  unfold Eval.makeRecord
  dsimp only
  refine guarded _ ?_
  refine (instanceTypeArgs _ _ _ _).andThen fun typeArgs => heap.bind fun h _ => ?_
  refine (unlessFault _).bind fun _ _ => ?_
  -- what the components obey does not depend on which instance the record will be
  have hchecked := checkComponents (S := S ∪ carried typeArgs ∪ carried h ∪ carried ())
    (o := ⟨0, c, typeArgs, none⟩) c.own.components knows_assoc_empty (hargs.more₃ _ _ _)
    (fun p _ v hv => by cases hv) fun p hp => hp
  refine hchecked.bind fun fields hobey => ?_
  have hcls' : Knows (S ∪ carried typeArgs ∪ carried h ∪ carried () ∪ carried fields) c :=
    (hcls.more₃ _ _ _).more _
  exact (newRecord hkind hcls' (Knows.self _ _) fun _ => hobey).andThen fun o => pure (by simp) trivial

theorem makeInstance
    [Careful E] {c : ClassDef} {args : List Value} (given : List TypeExpr) (site : Span)
    (hkind : c.kind ≠ .record) (hcls : Knows S c) (hargs : Knows S args) :
    Keeps S (Eval.makeInstance E c given args site) := by
  unfold Eval.makeInstance
  refine guarded _ ?_
  refine (selectConstructor _ _ _).andThen fun m => (instanceTypeArgs _ _ _ _).andThen fun ts => ?_
  refine heap.bind fun h _ => (unlessFault _).bind fun _ _ => ?_
  refine construction m site hkind (by simp [hcls]) (by simp [hargs]) fun o _ _ => pure ?_ trivial
  simp

theorem newInstance
    [Careful E] {args : List Value} {c : ClassDef} (given : List TypeExpr) (site : Span)
    (hcls : Knows S c) (hargs : Knows S args) :
    Keeps S (Eval.newInstance E c given args site) := by
  unfold Eval.newInstance
  split
  · exact fault _
  · next hkind =>
      exact makeRecord given hkind hcls hargs
  · next hkind =>
      exact makeInstance given site (by simp [hkind]) hcls hargs

theorem throwNew
    [Careful E] (cls message : String) :
    Keeps S (Eval.throwNew E cls message : Eval α) Q := by
  refine heap.bind fun h _ => ?_
  split
  · next c hfind =>
      have hcls : Knows (S ∪ carried h) c := (Knows.self S h).cls? hfind
      refine (newInstance _ _ hcls (by simp)).andThen fun v => throwValue ?_
      simp
  · exact throwValue knows_vstr

/-! ### Texts -/

theorem entryTexts
    [Careful E] {m : KeyedMap} (hm : Knows S m) :
    Keeps S (Eval.entryTexts E m) := by
  refine (mapM (Q := fun _ => True) fun e he => ?_).plain.andThen fun parts => ?_
  · have hknown := KeyedMap.knows_iff.mp hm e (Array.mem_toList_iff.mp he)
    refine (Careful.text hknown.1).andThen fun k => (Careful.text (hknown.2.more _)).andThen fun v => ?_
    exact pure (by simp) trivial
  · exact pure (knows_string _) trivial

theorem textOf
    [Careful E] {v : Value} (hv : Knows S v) :
    Keeps S (Eval.textOf E v) := by
  refine heap.bind fun h _ => ?_
  have hh : Knows (S ∪ carried h) h := Knows.self S h
  split
  · exact pure (knows_string _) trivial
  · split
    · refine (runMethod _ _ (Knows.more hv _) knows_nil).andThen fun w => ?_
      split
      · exact pure (knows_string _) trivial
      · exact Careful.text (Knows.self _ _)
    · exact pure (knows_string _) trivial
  · refine (mapM (Q := fun _ => True) fun x hx => ?_).plain.andThen fun parts => ?_
    · exact Careful.text ((hh.array _).of_mem_array (Array.mem_toList_iff.mp hx))
    · exact pure (knows_string _) trivial
  · exact entryTexts (hh.map _)
  · next c =>
      have hcontents := hh.collection c.id
      split
      · next xs heq =>
          rw [heq] at hcontents
          refine (mapM (Q := fun _ => True) fun x hx => ?_).plain.andThen fun parts => ?_
          · exact Careful.text (hcontents.of_mem_array (Array.mem_toList_iff.mp hx))
          · exact pure (knows_string _) trivial
      · next m heq =>
          rw [heq] at hcontents
          exact entryTexts hcontents
  · exact pure (knows_string _) trivial

end Keeps
end ScriptEngine
