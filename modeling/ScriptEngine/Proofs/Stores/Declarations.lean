import ScriptEngine.Proofs.Stores.Members

/-!
# Declarations that keep the stores

A declaration of a type opens a place for the static fields, gives them their first values and marks
the declaration as ended.  Meanwhile the thread holds the place, and only the declaration may store
there what must not change later.  A declaration that fails leaves the place as it is.

**Entries.** A type that passes its checks reaches known interfaces only, and itself if it is one.  All
of them are known apart by their numbers, so the type is lawful, and it may be registered.
-/

namespace ScriptEngine

variable {S S' : World} {E : Engine} {id : Nat} {α : Type} [Carrier α]

/-! ### Constants -/

theorem Builtin.isConstant_object
    {o : Instance} {name : String} {n : Nat} (hconstant : o.constant = some (name, n))
    (other : String) :
    Builtin.isConstant other (.object o) = (name == other) := by
  rw [Builtin.isConstant, hconstant]
  rfl

/-- An enum gets its next constant. -/
theorem Statics.Numbered.addConstant
    {s : Statics} {w : World} {n : Nat} {o : Instance} {name : String} (hs : s.Numbered w id)
    (hn : s.constants.length = n) (ho : Knows w o) (hcls : o.cls.id = id)
    (hconstant : o.constant = some (name, n)) :
    Numbered
      { s with
        slots := s.slots.insert name ⟨.object o, .constBinding, none⟩
        constants := s.constants ++ [.object o] } w id := by
  refine ⟨fun i v hv => ?_, fun other hother => ?_⟩
  · rcases Nat.lt_or_ge i s.constants.length with hlt | hge
    · rw [List.getElem?_append_left hlt] at hv
      exact hs.constants i v hv
    · rw [List.getElem?_append_right hge, List.getElem?_singleton] at hv
      split at hv
      · next hzero =>
          cases hv
          obtain rfl : i = n := by omega
          exact ⟨o, name, rfl, ho, hcls, hconstant⟩
      · cases hv
  · rw [Assoc.find?_insert, List.reverse_append, List.reverse_singleton, List.singleton_append,
      List.find?_cons, Builtin.isConstant_object hconstant]
    split
    · next heq =>
        simp [heq]
    · next hne =>
        rw [beq_false_of_ne hne]
        exact hs.slots other hother

/-! ### Declarations in progress -/

/-- What is left open when the declaration of a type has come to some outcome: with a number of
constants, or not at all if it has been completed.  A declaration that fails has added some constants
before. -/
def LeftOpen (id : Nat) (rest : List (Nat × Nat)) (after : Option Nat) (left : List (Nat × Nat)) :
    Except Signal Unit → Prop
  | .ok () => left = (after.map (id, ·)).toList ++ rest
  | .error _ => ∃ n, left = (id, n) :: rest

/-- A computation within the declaration of a type that has a number of constants; `after` tells how
many there are if it completes, and whether it ends the declaration. -/
def Declares (S : World) (id n : Nat) (after : Option Nat) (x : Eval Unit) : Prop :=
  ∀ c k h rest, S ⊆ k.known → stores.inv k h → k.declaring = (id, n) :: rest →
    stores.Follows (fun out k' => k.known ⊆ k'.known ∧ k'.building = k.building ∧
      Knows k'.known out ∧ LeftOpen id rest after k'.declaring out) (x c h) k h

namespace Declares

variable {n m : Nat} {after : Option Nat}

theorem of_keeps
    {x : Eval Unit} (hx : Keeps S x) :
    Declares S id n (some n) x := by
  intro c k h rest hk hinv hdeclaring
  refine (hx c k h hk hinv).weaken fun out k' hends => ?_
  refine ⟨hends.known, hends.building, hends.told, ?_⟩
  rw [hends.declaring, hdeclaring]
  cases out with
  | ok u =>
      rfl
  | error s =>
      exact ⟨n, rfl⟩

theorem bind
    {x : Eval α} {Q : α → Prop} {f : α → Eval Unit} (hx : Keeps S x Q)
    (hf : ∀ a, Q a → Declares (S ∪ carried a) id n after (f a)) :
    Declares S id n after (x >>= f) := by
  intro c k h rest hk hinv hdeclaring
  rw [Eval.bind_apply]
  refine (hx c k h hk hinv).bind (fun a k' h' _ hinv' ha => ?_) fun s k' hs => ?_
  · have hnext := hf a (ha.holds a rfl) c k' h' rest
      (Set.union_subset (hk.trans ha.known) ha.told) hinv' (ha.declaring.trans hdeclaring)
    refine hnext.weaken fun out k'' ⟨hknown, hbuilding, htold, hopen⟩ => ?_
    exact ⟨ha.known.trans hknown, hbuilding.trans ha.building, htold, hopen⟩
  · exact ⟨hs.known, hs.building, hs.told, n, hs.declaring.trans hdeclaring⟩

theorem andThen
    {x y : Eval Unit} (hx : Declares S id n (some m) x) (hy : Declares S id m after y) :
    Declares S id n after (x >>= fun _ => y) := by
  intro c k h rest hk hinv hdeclaring
  rw [Eval.bind_apply]
  refine (hx c k h rest hk hinv hdeclaring).bind
    (fun _ k' h' _ hinv' ⟨hknown, hbuilding, _, hopen⟩ => ?_)
    fun s k' ⟨hknown, hbuilding, htold, hopen⟩ => ?_
  · refine (hy c k' h' rest (hk.trans hknown) hinv' hopen).weaken
      fun out k'' ⟨hknown', hbuilding', htold', hopen'⟩ => ?_
    exact ⟨hknown.trans hknown', hbuilding'.trans hbuilding, htold', hopen'⟩
  · exact ⟨hknown, hbuilding, htold, hopen⟩

/-- Something is stored for the type under declaration. -/
theorem change
    {f : Statics → Statics} (hknown : ∀ w, S ⊆ w → ∀ s, Knows w s → Knows w (f s))
    (hobey : ∀ s, s.Obey → (f s).Obey) (hdeclared : ∀ s, (f s).declared = s.declared)
    (hlength : ∀ s, s.constants.length = n → (f s).constants.length = m)
    (hnumbered : ∀ w, S ⊆ w → ∀ s, s.constants.length = n → s.Numbered w id →
      (f s).Numbered w id) :
    Declares S id n (some m) (Eval.modify (·.modifyStatics id f)) := by
  intro c k h rest hk hinv hdeclaring
  refine ⟨{ k with declaring := (id, m) :: rest }, moves_of_path hinv fun w hs => ⟨w, .one ?_⟩,
    Set.Subset.rfl, rfl, knows_unit (), rfl⟩
  have hS := hk.trans (hs.known k List.mem_cons_self)
  exact .declare hdeclaring (hknown w hS) hobey hdeclared hlength (hnumbered w hS)

theorem fillStatic
    {slot : StaticField} (name : String) (hslot : Knows S slot.value)
    (hobeys : ObeysOption slot.value slot.type []) :
    Declares S id n (some n) (Eval.modify (·.fillStatic id name slot)) := by
  refine change (fun w hS s hs => ?_) (fun s hs => hs.insert hobeys) (fun _ => rfl) (fun _ hn => hn)
    fun w _ s _ hs => ⟨hs.constants, fun other hother => ?_⟩
  · rw [knows_statics] at hs ⊢
    exact ⟨hs.1.insert (hslot.mono hS), hs.2⟩
  · obtain ⟨hne, hother⟩ := not_or.mp (mt List.mem_cons.mpr hother)
    rw [Assoc.find?_insert, if_neg (Ne.symm hne)]
    exact hs.slots other hother

theorem addConstant
    {o : Instance} (name : String) (ho : Knows S o) (hcls : o.cls.id = id)
    (hconstant : o.constant = some (name, n)) :
    Declares S id n (some (n + 1)) (Eval.modify (·.addConstant id name (.object o))) := by
  refine change (fun w hS s hs => ?_) (fun s hs => hs.insert fun t ht => by cases ht) (fun _ => rfl)
    (fun s hn => by simpa using hn) fun w hS s hn hs => ?_
  · rw [knows_statics] at hs ⊢
    exact ⟨hs.1.insert (ho.mono hS), knows_append.mpr ⟨hs.2, by simpa using ho.mono hS⟩⟩
  · exact hs.addConstant hn (ho.mono hS) hcls hconstant

/-- The declaration ends. -/
theorem close : Declares S id n none (Eval.modify (·.endDeclaration id)) := by
  intro c k h rest hk hinv hdeclaring
  refine ⟨{ k with declaring := rest }, moves_of_path hinv fun w hs => ⟨w, .one ?_⟩,
    Set.Subset.rfl, rfl, knows_unit (), rfl⟩
  exact .closeStatics hdeclaring

end Declares

/-! ### Static fields and constants -/

namespace Declares

variable [Careful E] {n : Nat}

theorem fillStatics
    (owner : String) (env : Env) (fs : List (FieldDecl Expr)) :
    Declares S id n (some n) (Eval.fillStatics E id owner env fs) := by
  induction fs generalizing S with
  | nil =>
      exact of_keeps (.pure (knows_unit _) trivial)
  | cons f rest ih =>
      have hnext {T : World} {v : Value} (hv : Knows T v) : Declares T id n (some n) (do
          Eval.checkOption v (f.type.map TypeExpr.canonical) [] s!"static field '{f.name}' of {owner}"
          Eval.modify (·.fillStatic id f.name ⟨v, f.kind, f.type.map TypeExpr.canonical⟩)
          Eval.fillStatics E id owner env rest) := by
        refine bind (.checkOption _ _ _ _) fun _ hobeys => ?_
        exact andThen (fillStatic _ (hv.more _) hobeys) ih
      unfold Eval.fillStatics
      dsimp only
      split
      · exact bind (Careful.eval S _ env) fun v _ => hnext (Knows.self S v)
      · exact hnext knows_vnil

theorem makeConstant
    {c : ClassDef} (k : EnumConstant Expr) (env : Env) (hid : c.id = id)
    (hkind : c.kind ≠ .record) (hcls : Knows S c) :
    Declares S id n (some (n + 1)) (Eval.makeConstant E c k n env) := by
  subst hid
  have hbuilt (m : Option Method) (args : List Value) : Keeps (S ∪ carried args) (do
      let o ← Eval.change fun h => h.newObject c [] (some (k.name, n))
      Eval.construct E o m args k.span
      Pure.pure o) fun o => o.cls = c ∧ o.constant = some (k.name, n) :=
    .construction m k.span hkind (hcls.more _) (Knows.self S args) fun o hcls hconstant =>
      .pure (Knows.self _ o) ⟨hcls, hconstant⟩
  have hassoc : Eval.makeConstant E c k n env = (do
      let args ← k.args.mapM fun e => E.eval e env
      let m ← Eval.selectConstructor c.name c.own.constructors args.length
      let o ← (do
        let o ← Eval.change fun h => h.newObject c [] (some (k.name, n))
        Eval.construct E o m args k.span
        Pure.pure o)
      Eval.modify (·.addConstant c.id k.name (.object o))) := by
    simp only [bind_assoc, pure_bind]
    rfl
  rw [hassoc]
  refine bind (.each fun e _ => Careful.eval S e env) fun args _ => ?_
  refine bind (.selectConstructor _ _ _) fun m _ => ?_
  refine bind ((hbuilt m args).more _) fun o ⟨hcls, hconstant⟩ => ?_
  exact addConstant k.name (Knows.self _ o) (congrArg ClassDef.id hcls) hconstant

theorem makeConstants
    {c : ClassDef} (env : Env) (ks : List (EnumConstant Expr)) (hid : c.id = id)
    (hkind : ks ≠ [] → c.kind ≠ .record) (hcls : Knows S c) :
    Declares S id n (some (n + ks.length)) (Eval.makeConstants E c env n ks) := by
  induction ks generalizing n with
  | nil =>
      exact of_keeps (.pure (knows_unit _) trivial)
  | cons k rest ih =>
      have hkind' := hkind (List.cons_ne_nil k rest)
      rw [List.length_cons, Nat.add_comm rest.length, ← Nat.add_assoc]
      exact andThen (makeConstant k env hid hkind' hcls) (ih fun _ => hkind')

/-- The part of a declaration that follows the entry of the type. -/
theorem initialise
    {d : TypeDecl} {t : TypeDef} (env : Env)
    (hkind : ∀ c, t = .cls c → d.constants ≠ [] → c.kind ≠ .record) (ht : Knows S t) :
    Declares S t.id 0 none (d.initialise E env t) := by
  have hrest {n : Nat} : Declares S t.id n none (do
      Eval.fillStatics E t.id d.name env d.staticFields
      Eval.modify (·.endDeclaration t.id)) := andThen (fillStatics _ env _) close
  unfold TypeDecl.initialise
  cases t with
  | cls c =>
      exact andThen (makeConstants env _ rfl (hkind c rfl) ht) hrest
  | interface i =>
      exact hrest

end Declares

/-! ### What the checks tell -/

section Checks

variable {w : World} {h : Heap} {env : Env} {child : String}

theorem knows_of_parentOf
    {e : TypeExpr} {p : ClassDef} (hh : Knows w h) (hok : Eval.parentOf h env child e = .ok p) :
    Knows w p := by
  obtain ⟨name, -, hok⟩ := TypeDecl.of_bind_eq_ok hok
  obtain ⟨q, hq, hok⟩ := TypeDecl.of_bind_eq_ok hok
  have hknown : Knows w q := by
    unfold Eval.parentNamed at hq
    split at hq
    next hfind =>
      cases hq
      exact hh.cls? hfind
    · have hlookup := Scopes.knows_lookup hh.scopes env name
      split at hq
      next heq =>
        cases hq
        rw [heq] at hlookup
        exact hlookup
      all_goals cases hq
  dsimp only at hok
  split at hok
  · cases hok
  · split at hok
    · cases hok
    · cases hok
      exact hknown

theorem knows_of_resolveInterface
    {e : TypeExpr} {i : Interface} (hh : Knows w h)
    (hok : Eval.resolveInterface h env child e = .ok i) :
    Knows w i := by
  obtain ⟨name, -, hok⟩ := TypeDecl.of_bind_eq_ok hok
  obtain ⟨j, hj, hok⟩ := TypeDecl.of_bind_eq_ok hok
  have hknown : Knows w j := by
    unfold Eval.interfaceNamed at hj
    split at hj
    next hfind =>
      cases hj
      exact hh.interface? hfind
    · have hlookup := Scopes.knows_lookup hh.scopes env name
      split at hj
      next heq =>
        cases hj
        rw [heq] at hlookup
        exact hlookup
      all_goals cases hj
  dsimp only at hok
  split at hok
  · cases hok
  · cases hok
    exact hknown

theorem knows_of_interfacesOf
    {es : List TypeExpr} {is : List Interface} (hh : Knows w h)
    (hok : Eval.interfacesOf h env child es = .ok is) :
    ∀ i ∈ is, Knows w i := by
  intro i hi
  obtain ⟨e, -, he⟩ := of_interfacesOf hok i hi
  exact knows_of_resolveInterface hh he

/-- A checked type reaches what is known, and itself if it is an interface. -/
theorem reaches_of_checked
    {d : TypeDecl} {t : TypeDef} {j : Interface} (hh : Knows w h) (hok : d.checked h env = .ok t)
    (hj : t.Reaches j) :
    t = .interface j ∨ .interface j ∈ w := by
  have hfrom {is : List Interface} (his : ∀ i ∈ is, Knows w i) {i : Interface} (hi : i ∈ is)
      (hij : i.Reaches j) : t = .interface j ∨ .interface j ∈ w :=
    .inr (knows_interface.mp (his i hi) j hij)
  cases d with
  | cls d =>
      obtain ⟨parent, interfaces, hparent, hinterfaces, -, rfl, -⟩ :=
        TypeDecl.of_checked_cls hok
      obtain ⟨l, hl, i, hi, hij⟩ := hj
      rcases List.mem_cons.mp hl with rfl | hl
      · exact hfrom (knows_of_interfacesOf hh hinterfaces) hi hij
      · cases parent with
        | none =>
            cases hl
        | some p =>
            obtain ⟨e, he⟩ := hparent p rfl
            exact .inr ((knows_class.mp (knows_of_parentOf hh he)).2 j ⟨l, hl, i, hi, hij⟩)
  | interface d =>
      obtain ⟨parents, hparents, rfl, -⟩ := TypeDecl.of_checked_interface hok
      cases hj with
      | refl =>
          exact .inl rfl
      | step hp hpj =>
          exact hfrom (knows_of_interfacesOf hh hparents) hp hpj
  | enumeration d =>
      obtain ⟨interfaces, hinterfaces, rfl, -⟩ := TypeDecl.of_checked_enumeration hok
      obtain ⟨l, hl, i, hi, hij⟩ := hj
      cases List.mem_singleton.mp hl
      exact hfrom (knows_of_interfacesOf hh hinterfaces) hi hij
  | record d =>
      obtain ⟨interfaces, hinterfaces, -, rfl, -⟩ := TypeDecl.of_checked_record hok
      obtain ⟨l, hl, i, hi, hij⟩ := hj
      cases List.mem_singleton.mp hl
      exact hfrom (knows_of_interfacesOf hh hinterfaces) hi hij

/-- The ancestors of a checked class are known. -/
theorem lineage_of_checked
    {d : TypeDecl} {c : ClassDef} (hfits : Fits w h) (hok : d.checked h env = .ok (.cls c)) :
    ∀ d ∈ c.lineage, d = c ∨ .cls d ∈ w := by
  intro a ha
  refine (List.mem_cons.mp ha).imp_right fun ha => ?_
  cases d with
  | cls d =>
      obtain ⟨parent, interfaces, hparent, -, -, hc, -⟩ := TypeDecl.of_checked_cls hok
      cases hc
      cases parent with
      | none =>
          nomatch ha
      | some p =>
          obtain ⟨e, he⟩ := hparent p rfl
          have hp := (knows_class.mp (knows_of_parentOf hfits.known he)).1
          exact hfits.classes.up hp a ha
  | interface d =>
      obtain ⟨parents, -, hc, -⟩ := TypeDecl.of_checked_interface hok
      cases hc
  | enumeration d =>
      obtain ⟨interfaces, -, hc, -⟩ := TypeDecl.of_checked_enumeration hok
      cases hc
      nomatch ha
  | record d =>
      obtain ⟨interfaces, -, -, hc, -⟩ := TypeDecl.of_checked_record hok
      cases hc
      nomatch ha

end Checks

/-! ### Entries -/

section Entries

variable {k : Hold} {w : World} {h h' : Heap} {env : Env}

/-- A declaration that is refused has opened places for static fields and left them. -/
theorem path_of_refuses
    {cause : Cause} (hrefuses : h.Refuses cause h') :
    Path k w h k w h' := by
  induction hrefuses with
  | here h =>
      exact .one (.quiet (.note w h _))
  | @later h h' _ ih =>
      have hleave : Change ⟨k.known, k.building, (h.statics.size, 0) :: k.declaring⟩ w h.newStatics.2
          k w h.newStatics.2 := .leaveStatics rfl
      exact (Path.step (.one .openStatics) hleave).trans ih

/-- A place is opened for a checked type, whose number it has.  Then all that it reaches is known. -/
theorem path_open
    {d : TypeDecl} {t : TypeDef} (hfits : Fits w h) (hok : d.checked h env = .ok t) :
    ∃ w', Path k w h ⟨k.known ∪ carried t, k.building, (t.id, 0) :: k.declaring⟩ w'
        { h.newStatics.2 with declared := t.name :: h.declared } ∧
      Knows w' t := by
  have hid := (TypeDecl.name_of_checked hok).2
  have hreach {j : Interface} (hj : t.Reaches j) := reaches_of_checked hfits.known hok hj
  cases t with
  | cls c =>
      have hknown : Knows (w ∪ {.cls c}) c := knows_class.mpr ⟨Set.mem_union_right _ rfl, fun j hj =>
        Set.mem_union_left _ ((hreach hj).resolve_left fun heq => nomatch heq)⟩
      rw [hid]
      exact ⟨_, .step (.one (.openClass hid (lineage_of_checked hfits hok))) (.learn hknown), hknown⟩
  | interface i =>
      have hknown : Knows (w ∪ {.interface i}) i := knows_interface.mpr fun j hj => by
        rcases hreach hj with heq | hold
        · cases heq
          exact Set.mem_union_right _ rfl
        · exact Set.mem_union_left _ hold
      rw [hid]
      exact ⟨_, .step (.one (.openInterface hid)) (.learn hknown), hknown⟩

/-- A checked type is entered. -/
theorem path_enter
    {d : TypeDecl} {t : TypeDef} (hs : Agree [k] w h) (hok : d.checked h env = .ok t) :
    ∃ w', Path k w h ⟨k.known ∪ carried t, k.building, (t.id, 0) :: k.declaring⟩ w'
      (h.newStatics.2.enterType env t) := by
  obtain ⟨w', hopen, ht⟩ := path_open (k := k) hs.fits hok
  have hcoherent : Interface.Coherent {i | t.Reaches i} := fun i hi j hj =>
    (hopen.agree hs).fits.interfaces.coherent i (ht.reaches i hi) j (ht.reaches j hj)
  have hlawful := TypeDecl.lawful_of_checked hok hcoherent
  have hregister : Quiet w' { h.newStatics.2 with declared := t.name :: h.declared }
      { h.newStatics.2 with
        declared := t.name :: h.declared
        registry := h.registry.put t } :=
    .setRegistry _ (fun hr => hr.put ht) fun hr => hr.put hlawful
  have hbinding : Knows w' t.binding.value := by
    cases t <;> exact ht
  have hbind : Quiet w'
      { h.newStatics.2 with
        declared := t.name :: h.declared
        registry := h.registry.put t }
      (h.newStatics.2.enterType env t) :=
    .define _ env t.name hbinding fun _ htype => nomatch htype
  exact ⟨w', .step (.step hopen (.quiet hregister)) (.quiet hbind)⟩

end Entries

namespace Keeps

/-- A declaration that goes through the checks of a type and initialises it. -/
theorem of_begins
    [Careful E] {x : Eval Unit} {d : TypeDecl} {env : Env}
    (hx : ∀ h, Eval.Begins x h (d.checked h env) (Eval.enterAndInitialise E env d h)) :
    Keeps S x := by
  intro ctx k h hk hinv
  have hbegins := hx h
  cases hok : d.checked h env with
  | error cause =>
      rw [hok] at hbegins
      obtain ⟨h', hraise, hrefuses⟩ := hbegins ctx
      rw [hraise]
      refine ⟨k, moves_of_path hinv fun w _ => ⟨w, path_of_refuses hrefuses⟩, Set.Subset.rfl,
        rfl, rfl, knows_error.mpr (knows_fault (f := .ofCause cause)), fun _ hout => nomatch hout⟩
  | ok t =>
      rw [hok] at hbegins
      rw [hbegins ctx]
      have henter : stores.moves k h ⟨k.known ∪ carried t, k.building, (t.id, 0) :: k.declaring⟩
          (h.newStatics.2.enterType env t) :=
        moves_of_path hinv fun w hs => path_enter hs hok
      have hdeclares : Declares (S ∪ carried t) t.id 0 none (d.initialise E env t) :=
        .initialise env (fun c hc hconstants => TypeDecl.kind_of_checked (hc ▸ hok) hconstants)
          (Knows.self S t)
      refine Protocol.Follows.after henter ?_
      refine (hdeclares ctx ⟨k.known ∪ carried t, k.building, (t.id, 0) :: k.declaring⟩ _ k.declaring
        (Set.union_subset_union_left _ hk) (stores.moves_inv henter) rfl).release
        fun out k' h' hinv' ⟨hknown, hbuilding, htold, hleft⟩ => ?_
      have hknown' := Set.subset_union_left.trans hknown
      cases out with
      | ok u =>
          exact ⟨k', stores.moves_refl hinv', hknown', hbuilding, hleft, htold,
            fun _ _ => trivial⟩
      | error s =>
          obtain ⟨n, hleft⟩ := hleft
          exact ⟨{ k' with declaring := k.declaring },
            moves_of_path hinv' fun w _ => ⟨w, .one (.leaveStatics hleft)⟩,
            hknown', hbuilding, rfl, htold, fun _ hout => nomatch hout⟩

theorem declareClass
    [Careful E] (d : ClassDecl Expr Stmt) (env : Env) :
    Keeps S (Eval.declareClass E d env) := by
  exact of_begins (Eval.declareClass_begins E env d)

theorem declareInterface
    [Careful E] (d : InterfaceDecl Expr Stmt) (env : Env) :
    Keeps S (Eval.declareInterface E d env) := by
  exact of_begins (Eval.declareInterface_begins E env d)

theorem declareEnum
    [Careful E] (d : EnumDecl Expr Stmt) (env : Env) :
    Keeps S (Eval.declareEnum E d env) := by
  exact of_begins (Eval.declareEnum_begins E env d)

theorem declareRecord
    (E : Engine) [Careful E] (d : RecordDecl Stmt) (env : Env) :
    Keeps S (Eval.declareRecord d env) := by
  exact of_begins (Eval.declareRecord_begins E env d)

end Keeps
end ScriptEngine
