import Mathlib.Data.List.Chain
import Mathlib.Data.List.Nodup
import ScriptEngine.Eval.Access
import ScriptEngine.Proofs.Evaluation.Checks
import ScriptEngine.Proofs.Registry.Reach

/-!
# Going up with `super`

A body that is run on an instance runs as a class, its *home*: the nearest class in the lineage of the
instance that has the name of the body's owner, and the class of the instance itself where there is
none.  What such a body asks of `super` is looked for from the parent of its home on.

So bodies that run because of each other go up the lineage just if each of them is owned by a name
that is met above the home of the one before and not met earlier (`superChain_climbs`).  Where the
classes of a lineage have different names, all methods and constructors of classes do so, and a chain
of them is no longer than the lineage.

Two kinds of bodies go down again: a method of a class whose name a class below has too, and a default
of an interface, whose owner is no class at all.  A chain of them need not end.
-/

namespace ScriptEngine

/-! ### Above a class -/

namespace ClassDef

/-- The ancestors of a class, nearest first. -/
def above (c : ClassDef) : List ClassDef := fromLayers c.ancestors

variable {c d e : ClassDef}

theorem mem_fromLayers_iff
    {ls : List ClassLayer} :
    d ∈ fromLayers ls ↔ d.layers <:+ ls := by
  induction ls with
  | nil =>
      simp [fromLayers, layers]
  | cons l ls ih =>
      rw [fromLayers, List.mem_cons, List.suffix_cons_iff, ih, layers]
      refine or_congr_left ?_
      rw [List.cons.injEq]
      exact ⟨fun heq => heq ▸ ⟨rfl, rfl⟩, fun ⟨hown, hrest⟩ => by cases d; simp_all⟩

theorem mem_lineage_iff :
    d ∈ c.lineage ↔ d = c ∨ d ∈ c.above := by
  exact List.mem_cons

theorem above_subset_lineage
    (h : d ∈ c.above) :
    d ∈ c.lineage := by
  exact List.mem_cons_of_mem _ h

/-- What is above a class has fewer classes above it. -/
theorem length_above_lt
    (h : d ∈ c.above) :
    d.above.length < c.above.length := by
  have hlength (ls : List ClassLayer) : (fromLayers ls).length = ls.length := by
    induction ls with
    | nil =>
        rfl
    | cons l ls ih =>
        simp [fromLayers, ih]
  have hsuffix := (mem_fromLayers_iff.mp h).length_le
  rw [layers, List.length_cons] at hsuffix
  rw [above, above, hlength, hlength]
  exact hsuffix

theorem not_mem_above_self :
    c ∉ c.above := by
  intro h
  exact absurd (length_above_lt h) (Nat.lt_irrefl _)

theorem above_trans
    (hd : d ∈ c.above) (he : e ∈ d.above) :
    e ∈ c.above := by
  rw [above, mem_fromLayers_iff] at hd he ⊢
  exact he.trans ((List.suffix_cons _ _).trans hd)

/-- The first class of a lineage with a property is below all others with it. -/
theorem eq_or_mem_above_of_find?
    {p : ClassDef → Bool} (hfind : c.lineage.find? p = some d) (he : e ∈ c.lineage)
    (hp : p e = true) :
    e = d ∨ e ∈ d.above := by
  obtain ⟨own, ancestors⟩ := c
  induction ancestors generalizing own with
  | nil =>
      simp_all [lineage, fromLayers]
  | cons l ls ih =>
      rw [lineage, List.find?_cons] at hfind
      split at hfind
      · cases hfind
        exact mem_lineage_iff.mp he
      · next hnot =>
          refine ih l hfind ?_
          rcases mem_lineage_iff.mp he with rfl | he
          · rw [hp] at hnot
            cases hnot
          · exact he

theorem above_eq_of_parent?
    {p : ClassDef} (h : c.parent? = some p) :
    c.above = p.lineage := by
  unfold parent? at h
  split at h
  · cases h
  · next hancestors =>
      cases h
      rw [above, hancestors]
      rfl

end ClassDef

/-! ### Defaults -/

namespace Interface

mutual

/-- What a search finds was seen before or is reached. -/
theorem seen_or_reaches_of_gatherInto
    (seen : List Interface) :
    (i : Interface) → ∀ j ∈ gatherInto seen i, j ∈ seen ∨ i.Reaches j
  | .mk o ps => by
      intro j hj
      rw [gatherInto] at hj
      split at hj
      · exact .inl hj
      · rcases seen_or_reaches_of_collectAll _ ps j hj with hseen | ⟨p, hp, hreaches⟩
        · rcases List.mem_append.mp hseen with hseen | hself
          · exact .inl hseen
          · rw [List.mem_singleton.mp hself]
            exact .inr (.refl _)
        · exact .inr (.step hp hreaches)

theorem seen_or_reaches_of_collectAll
    (seen : List Interface) :
    (is : List Interface) → ∀ j ∈ collectAll seen is, j ∈ seen ∨ ∃ i ∈ is, i.Reaches j
  | [] => by
      intro j hj
      exact .inl hj
  | i :: rest => by
      intro j hj
      rw [collectAll] at hj
      rcases seen_or_reaches_of_collectAll _ rest j hj with hseen | ⟨k, hk, hreaches⟩
      · rcases seen_or_reaches_of_gatherInto seen i j hseen with hseen | hreaches
        · exact .inl hseen
        · exact .inr ⟨i, List.mem_cons_self, hreaches⟩
      · exact .inr ⟨k, List.mem_cons_of_mem _ hk, hreaches⟩

end

end Interface

namespace ClassDef

variable {c : ClassDef} {m : Method}

theorem reaches_of_mem_implementedInterfaces
    {i : Interface} (hi : i ∈ c.implementedInterfaces) :
    c.Reaches i := by
  have hfold (ls : List ClassLayer) (seen : List Interface)
      (hfound : i ∈ ls.foldl (fun seen l => Interface.collectAll seen l.interfaces) seen) :
      i ∈ seen ∨ ∃ l ∈ ls, ∃ j ∈ l.interfaces, j.Reaches i := by
    induction ls generalizing seen with
    | nil =>
        exact .inl hfound
    | cons l ls ih =>
        rcases ih _ hfound with hseen | ⟨k, hk, hreaches⟩
        · rcases Interface.seen_or_reaches_of_collectAll seen _ i hseen with hseen | hreaches
          · exact .inl hseen
          · exact .inr ⟨l, List.mem_cons_self, hreaches⟩
        · exact .inr ⟨k, List.mem_cons_of_mem _ hk, hreaches⟩
  exact (hfold c.layers [] hi).resolve_left List.not_mem_nil

/-- A method is a default of an interface in the reach of a class. -/
def HasDefault (c : ClassDef) (m : Method) : Prop := ∃ i, c.Reaches i ∧ m ∈ i.own.methods

theorem mem_lineage_of_mem_layers
    {l : ClassLayer} (hl : l ∈ c.layers) :
    ∃ d ∈ c.lineage, d.own = l := by
  obtain ⟨before, after, hsplit⟩ := List.append_of_mem hl
  refine ⟨⟨l, after⟩, ?_, rfl⟩
  have hsuffix : (⟨l, after⟩ : ClassDef) ∈ fromLayers c.layers := by
    rw [mem_fromLayers_iff, hsplit]
    exact List.suffix_append _ _
  exact hsuffix

theorem exists_mem_lineage_iff
    {P : ClassLayer → Prop} :
    (∃ d ∈ c.lineage, P d.own) ↔ ∃ l ∈ c.layers, P l := by
  constructor
  · rintro ⟨d, hd, hP⟩
    exact ⟨d.own, (mem_fromLayers_iff.mp hd).subset List.mem_cons_self, hP⟩
  · rintro ⟨l, hl, hP⟩
    obtain ⟨d, hd, rfl⟩ := mem_lineage_of_mem_layers hl
    exact ⟨d, hd, hP⟩

/-- Among the methods of a class those that are no defaults are owned by a class of the lineage. -/
theorem owner_of_usable
    {name : String} (hm : m ∈ c.usableMethods name) :
    (∃ d ∈ c.lineage, d.name = m.owner) ∨ c.HasDefault m := by
  have hbody {ms : List Method} (hmem : m ∈ bodiesNamed ms name) : m ∈ ms :=
    (mem_bodiesNamed_iff.mp hmem).1
  rcases List.mem_append.mp hm with hclass | hdefault
  · obtain ⟨l, hl, hmem⟩ := List.mem_flatMap.mp hclass
    obtain ⟨d, hd, rfl⟩ := mem_lineage_of_mem_layers hl
    exact .inl ⟨d, hd, (d.own.owned m (List.mem_append_left _ (hbody hmem))).symm⟩
  · obtain ⟨i, hi, hmem⟩ := List.mem_flatMap.mp hdefault
    exact .inr ⟨i, reaches_of_mem_implementedInterfaces hi, hbody hmem⟩

theorem owner_of_effectiveConstructor
    (hm : m ∈ c.effectiveConstructors) :
    ∃ d ∈ c.lineage, d.name = m.owner := by
  rw [effectiveConstructors] at hm
  cases hfind : c.layers.find? fun l => !l.constructors.isEmpty with
  | none =>
      simp [hfind] at hm
  | some l =>
      rw [hfind] at hm
      obtain ⟨d, hd, rfl⟩ := mem_lineage_of_mem_layers (List.mem_of_find?_eq_some hfind)
      exact ⟨d, hd, (d.own.owned m (List.mem_append_right _ hm)).symm⟩

/-- A class has the defaults of those above it. -/
theorem HasDefault.below
    {p : ClassDef} (hdefault : p.HasDefault m) (hp : p ∈ c.above) :
    c.HasDefault m := by
  obtain ⟨i, ⟨l, hl, hreaches⟩, hmem⟩ := hdefault
  have hsuffix := mem_fromLayers_iff.mp hp
  exact ⟨i, ⟨l, List.mem_cons_of_mem _ (hsuffix.subset hl), hreaches⟩, hmem⟩

end ClassDef

/-! ### Bodies that run because of each other -/

namespace Instance

variable {o : Instance} {m m' : Method} {ms : List Method}

/-- The class that a method runs as on an instance. -/
def home (o : Instance) (m : Method) : ClassDef :=
  (o.cls.lineage.find? (·.name == m.owner)).getD o.cls

/-- One body runs on an instance because another one asks for it with `super`. -/
inductive Supers (o : Instance) (m : Method) : Method → Prop
  | method {p : ClassDef} {name : String} {argc : Nat} {m' : Method} :
      (o.home m).parent? = some p →
      Overload.select Method.params (p.usableMethods name) argc = some m' → Supers o m m'
  | constructor {p : ClassDef} {argc : Nat} {m' : Method} :
      (o.home m).parent? = some p →
      Overload.select Method.params p.effectiveConstructors argc = some m' → Supers o m m'

/-- A body runs as a class above the one that another body runs as. -/
def Climbs (o : Instance) (m m' : Method) : Prop := o.home m' ∈ (o.home m).above

/-- The name of a body's owner is met above the home of another body, and not met earlier. -/
structure MetAbove (o : Instance) (m m' : Method) : Prop where
  above : ∃ d ∈ (o.home m).above, d.name = m'.owner
  notEarlier : ∀ d ∈ o.cls.lineage, d.name = m'.owner → d ∈ (o.home m).above

theorem home_mem_lineage
    (o : Instance) (m : Method) :
    o.home m ∈ o.cls.lineage := by
  rw [home]
  cases hfind : o.cls.lineage.find? (·.name == m.owner) with
  | none =>
      exact List.mem_cons_self
  | some d =>
      exact List.mem_of_find?_eq_some hfind

theorem home_of_find?
    {d : ClassDef} (hfind : o.cls.lineage.find? (·.name == m.owner) = some d) :
    o.home m = d := by
  rw [home, hfind, Option.getD_some]

/-- A body whose owner is none of the classes runs as the class of the instance itself. -/
theorem home_of_stranger
    (hstranger : ∀ d ∈ o.cls.lineage, d.name ≠ m.owner) :
    o.home m = o.cls := by
  have hnone : o.cls.lineage.find? (·.name == m.owner) = none := by
    rw [List.find?_eq_none]
    simpa using hstranger
  rw [home, hnone, Option.getD_none]

/-- What is above a home is above the class of the instance. -/
theorem mem_above_of_mem_above_home
    {d : ClassDef} (hd : d ∈ (o.home m).above) :
    d ∈ o.cls.above := by
  rcases ClassDef.mem_lineage_iff.mp (o.home_mem_lineage m) with hhome | hhome
  · rwa [hhome] at hd
  · exact ClassDef.above_trans hhome hd

/-- A body whose owner is none of the classes does not go up. -/
theorem not_climbs_of_stranger
    (hstranger : ∀ d ∈ o.cls.lineage, d.name ≠ m'.owner) :
    ¬ o.Climbs m m' := by
  intro hclimbs
  rw [Climbs, home_of_stranger hstranger] at hclimbs
  exact ClassDef.not_mem_above_self (mem_above_of_mem_above_home hclimbs)

/-- A step goes up just if the owner of the next body is met above, and not earlier. -/
theorem climbs_iff_metAbove :
    o.Climbs m m' ↔ o.MetAbove m m' := by
  rw [Climbs]
  constructor
  · intro hclimbs
    cases hfind : o.cls.lineage.find? (·.name == m'.owner) with
    | none =>
        have hstranger : ∀ d ∈ o.cls.lineage, d.name ≠ m'.owner := by
          simpa using List.find?_eq_none.mp hfind
        exact absurd hclimbs (not_climbs_of_stranger hstranger)
    | some d =>
        rw [home_of_find? hfind] at hclimbs
        refine ⟨⟨d, hclimbs, by simpa using List.find?_some hfind⟩, fun e he hname => ?_⟩
        rcases ClassDef.eq_or_mem_above_of_find? hfind he (by simpa using hname) with rfl | hlater
        · exact hclimbs
        · exact ClassDef.above_trans hclimbs hlater
  · rintro ⟨⟨d, hd, hname⟩, hearlier⟩
    have hlineage := ClassDef.above_subset_lineage (mem_above_of_mem_above_home hd)
    cases hfind : o.cls.lineage.find? (·.name == m'.owner) with
    | none =>
        exact absurd hname (by simpa using List.find?_eq_none.mp hfind d hlineage)
    | some e =>
        rw [home_of_find? hfind]
        exact hearlier e (List.mem_of_find?_eq_some hfind) (by simpa using List.find?_some hfind)

/-- Where the classes have different names, a body that is no default is met above. -/
theorem Supers.metAbove
    (hsupers : o.Supers m m') (hnames : (o.cls.lineage.map (·.name)).Nodup)
    (hclass : ¬ o.cls.HasDefault m') :
    o.MetAbove m m' := by
  have habove : ∃ d ∈ (o.home m).above, d.name = m'.owner := by
    cases hsupers with
    | method hparent hselect =>
        have hlineage := ClassDef.above_eq_of_parent? hparent
        rw [hlineage]
        refine (ClassDef.owner_of_usable (Overload.mem_of_select hselect)).resolve_right ?_
        intro hdefault
        refine hclass (hdefault.below (mem_above_of_mem_above_home (m := m) ?_))
        rw [hlineage]
        exact List.mem_cons_self
    | constructor hparent hselect =>
        rw [ClassDef.above_eq_of_parent? hparent]
        exact ClassDef.owner_of_effectiveConstructor (Overload.mem_of_select hselect)
  refine ⟨habove, fun e he hname => ?_⟩
  obtain ⟨d, hd, hown⟩ := habove
  have hlineage := ClassDef.above_subset_lineage (mem_above_of_mem_above_home hd)
  rwa [List.inj_on_of_nodup_map hnames he hlineage (hname.trans hown.symm)]

/-- A chain that goes up has at most as many steps as there are classes above. -/
theorem length_le_above
    (hclimbs : (m :: ms).IsChain o.Climbs) :
    ms.length ≤ (o.home m).above.length := by
  induction ms generalizing m with
  | nil =>
      exact Nat.zero_le _
  | cons m' ms ih =>
      obtain ⟨hstep, hrest⟩ := List.isChain_cons_cons.mp hclimbs
      have hshorter := ClassDef.length_above_lt hstep
      have hlength := ih hrest
      rw [List.length_cons]
      omega

/-- Bodies that run because of each other go up just if each owner is met above, and not earlier.  They
do where the classes of the lineage have different names and no default runs, and bodies that go up are
no more than the classes of the lineage. -/
theorem superChain_climbs
    (hchain : ms.IsChain o.Supers) :
    (ms.IsChain o.Climbs ↔ ms.IsChain o.MetAbove) ∧
      ((o.cls.lineage.map (·.name)).Nodup → (∀ m ∈ ms.tail, ¬ o.cls.HasDefault m) →
        ms.IsChain o.Climbs) ∧
      (ms.IsChain o.Climbs → ms.length ≤ o.cls.lineage.length) := by
  refine ⟨List.IsChain.iff fun _ _ => climbs_iff_metAbove, fun hnames hclass => ?_, fun hclimbs => ?_⟩
  · refine hchain.imp_of_mem_tail_imp fun m m' _ hm' hsupers => ?_
    exact climbs_iff_metAbove.mpr (hsupers.metAbove hnames (hclass m' hm'))
  · cases ms with
    | nil =>
        exact Nat.zero_le _
    | cons m ms =>
        have hlength := length_le_above hclimbs
        have hlineage : o.cls.lineage.length = o.cls.above.length + 1 := rfl
        rw [List.length_cons, hlineage]
        rcases ClassDef.mem_lineage_iff.mp (o.home_mem_lineage m) with hhome | hhome
        · rw [hhome] at hlength
          omega
        · have hshorter := ClassDef.length_above_lt hhome
          omega

/-- A method that speaks, of an owner. -/
def speaks (owner : String) : Method where
  name := "speak"
  owner := owner
  typeParams := []
  params := []
  returns := none
  body := some []
  visibility := .visible
  isStatic := false
  closure := []

def speaker (name : String) : ClassLayer :=
  { (default : ClassLayer) with
    name := name
    methods := [speaks name]
    owned := List.forall_mem_singleton.mpr rfl }

/-- An instance of a class that speaks, below others that do. -/
def speakers (name : String) (above : List String) : Instance :=
  ⟨0, ⟨speaker name, above.map speaker⟩, [], none⟩

/-- Each of three animals asks the one above it. -/
theorem superChain_climbs_speakers :
    let o := speakers "Dog" ["Animal", "Being"]
    let ms := [speaks "Dog", speaks "Animal", speaks "Being"]
    ms.IsChain o.Supers ∧ ms.IsChain o.Climbs := by
  intro o ms
  have hchain : ms.IsChain o.Supers := by
    have hdog : o.Supers (speaks "Dog") (speaks "Animal") :=
      @Supers.method o _ ⟨speaker "Animal", [speaker "Being"]⟩ "speak" 0 _ rfl rfl
    have hanimal : o.Supers (speaks "Animal") (speaks "Being") :=
      @Supers.method o _ ⟨speaker "Being", []⟩ "speak" 0 _ rfl rfl
    exact .cons_cons hdog (.cons_cons hanimal (.singleton _))
  have hclass : ∀ m ∈ ms.tail, ¬ o.cls.HasDefault m := by
    rintro m - ⟨i, ⟨l, hl, j, hj, -⟩, -⟩
    have hlayer : l ∈ ["Dog", "Animal", "Being"].map speaker := hl
    obtain ⟨name, -, rfl⟩ := List.mem_map.mp hlayer
    cases hj
  exact ⟨hchain, (superChain_climbs hchain).2.1 (by decide) hclass⟩

end Instance

/-! ### What runs -/

namespace Eval

variable {E : Engine} {o : Instance} {m : Method} {env : Env} {args : List Value} {site : Span}
variable {ctx : Context} {h : Heap}

/-- The frame of a body is on its instance, as its home. -/
theorem runMethod_cases :
    (∃ cause, runMethod E o m args site ctx h = (fault cause : Eval Value) ctx h) ∨
      ∃ i : Invocation, i.receiver = some ⟨o, o.home m⟩ ∧
        runMethod E o m args site ctx h = invoke E i args site ctx h := by
  unfold runMethod bodyOf
  cases m.body with
  | none =>
      exact .inl ⟨_, rfl⟩
  | some body =>
      cases haccepts : Overload.accepts m.params args.length with
      | false =>
          exact .inl ⟨_, rfl⟩
      | true =>
          exact .inr ⟨_, rfl, rfl⟩

theorem openFrame_receiver
    (name : String) (r : Receiver) :
    ∃ env' h', openFrame env name (some r) ctx h = .value env' h' ∧
      h'.scopes.receiver env' = some r := by
  refine ⟨_, _, rfl, ?_⟩
  simp [Scopes.enter, Scopes.add, Scopes.receiver, Scopes.scope]

theorem superTarget_apply
    {r : Receiver} (hreceiver : h.scopes.receiver env = some r) :
    superTarget env ctx h =
      match r.cls.parent? with
      | none =>
        (fault (.other s!"class {r.cls.name} has no parent class") : Eval (Instance × ClassDef)) ctx h
      | some p => .value (r.this, p) h := by
  unfold superTarget
  rw [heap_bind_apply, hreceiver]
  dsimp only
  cases r.cls.parent? with
  | none =>
      rfl
  | some p =>
      rfl

/-- A method that is asked for with `super` runs because of the body that asks, if one runs at all. -/
theorem callAbove_cases
    {name : String} (hreceiver : h.scopes.receiver env = some ⟨o, o.home m⟩) :
    (∃ cause, callAbove E name args env site ctx h = (fault cause : Eval Value) ctx h) ∨
      callAbove E name args env site ctx h = Builtin.callMethod E (.object o) name args ctx h ∨
      ∃ m', o.Supers m m' ∧
        callAbove E name args env site ctx h = runMethod E o m' args site ctx h := by
  unfold callAbove
  rw [bind_apply, superTarget_apply hreceiver]
  cases hparent : (o.home m).parent? with
  | none =>
      exact .inl ⟨_, rfl⟩
  | some p =>
      simp only [Res.bind]
      cases hmethods : p.usableMethods name with
      | nil =>
          exact .inr (.inl rfl)
      | cons m₀ rest =>
          dsimp only
          rw [bind_apply, selectMethod, ← hmethods]
          cases hselect : Overload.select Method.params (p.usableMethods name) args.length with
          | none =>
              exact .inl ⟨_, rfl⟩
          | some m' =>
              exact .inr (.inr ⟨m', .method hparent hselect, rfl⟩)

/-- So does a constructor. -/
theorem constructAbove_cases
    (hreceiver : h.scopes.receiver env = some ⟨o, o.home m⟩) :
    (∃ cause, constructAbove E args env site ctx h = (fault cause : Eval Value) ctx h) ∨
      constructAbove E args env site ctx h = .value .nil h ∨
      ∃ m', o.Supers m m' ∧
        constructAbove E args env site ctx h =
          (runMethod E o m' args site >>= fun _ => pure .nil) ctx h := by
  unfold constructAbove
  rw [bind_apply, superTarget_apply hreceiver]
  cases hparent : (o.home m).parent? with
  | none =>
      exact .inl ⟨_, rfl⟩
  | some p =>
      simp only [Res.bind]
      rw [bind_apply, selectConstructor]
      by_cases hempty : p.effectiveConstructors.isEmpty = true
      · by_cases hnone : args.length = 0
        · rw [if_pos hempty, if_pos hnone]
          exact .inr (.inl rfl)
        · rw [if_pos hempty, if_neg hnone]
          exact .inl ⟨_, rfl⟩
      · rw [if_neg hempty]
        cases hselect : Overload.select Method.params p.effectiveConstructors args.length with
        | none =>
            exact .inl ⟨_, rfl⟩
        | some m' =>
            exact .inr (.inr ⟨m', .constructor hparent hselect, rfl⟩)

end Eval

end ScriptEngine
