import ScriptEngine.Proofs.Registry.Lawful
import ScriptEngine.Proofs.Resets.Members

/-!
# Declarations that overlook what is old

The supertypes of a declared type are found in the registry or in its scope, so they are recent if
the scope is.  Its methods see the same scope.
-/

namespace ScriptEngine

variable {t : Epoch} {E : Engine} {env : Env} {α : Type} {P : α → Prop}

/-! ### Supertypes -/

namespace Eval

variable {h : Heap} {child : String}

theorem parentNamed_forget
    (henv : Recent t env) (name : String) :
    parentNamed (h.forget t) env child name = parentNamed h env child name := by
  unfold parentNamed
  rw [Heap.registry_forget, Heap.scopes_forget, Scopes.lookup_forget henv]

theorem parentOf_forget
    (henv : Recent t env) (e : TypeExpr) :
    parentOf (h.forget t) env child e = parentOf h env child e := by
  unfold parentOf
  simp only [parentNamed_forget henv]

theorem interfaceNamed_forget
    (henv : Recent t env) (name : String) :
    interfaceNamed (h.forget t) env name = interfaceNamed h env name := by
  unfold interfaceNamed
  rw [Heap.registry_forget, Heap.scopes_forget, Scopes.lookup_forget henv]

theorem resolveInterface_forget
    (henv : Recent t env) (e : TypeExpr) :
    resolveInterface (h.forget t) env child e = resolveInterface h env child e := by
  unfold resolveInterface
  simp only [interfaceNamed_forget henv]

theorem interfacesOf_forget
    (henv : Recent t env) (es : List TypeExpr) :
    interfacesOf (h.forget t) env child es = interfacesOf h env child es := by
  have hsame : resolveInterface (h.forget t) env child = resolveInterface h env child :=
    funext fun e => resolveInterface_forget henv e
  rw [interfacesOf, interfacesOf, hsame]

/-- What is looked up may be used. -/
private theorem recent_then
    {α β : Type} [Dated β] {x : Except Cause α} {f : α → Except Cause β}
    (hf : ∀ a, x = .ok a → Recent t (f a)) :
    Recent t (x >>= f) := by
  cases x with
  | error cause =>
      exact recent_error.mpr (recent_cause cause)
  | ok a =>
      exact hf a rfl

/-- What comes after a check. -/
private theorem recent_guarded
    {β : Type} [Dated β] {p : Prop} [Decidable p] {cause : Cause} {f : Unit → Except Cause β}
    (hf : Recent t (f ())) :
    Recent t (if p then throw cause >>= f else f ()) := by
  split
  · exact recent_then nofun
  · exact hf

theorem recent_parentNamed
    (hh : h.Renewed t) (henv : Recent t env) (name : String) :
    Recent t (parentNamed h env child name) := by
  have hlookup := Scopes.Renewed.lookup hh.scopes henv name
  unfold parentNamed
  split
  · next c heq =>
      exact hh.cls? heq
  · split
    · next c heq => exact hlookup _ heq
    · exact recent_error.mpr (recent_cause _)
    · exact recent_error.mpr (recent_cause _)

theorem recent_parentOf
    (hh : h.Renewed t) (henv : Recent t env) (e : TypeExpr) :
    Recent t (parentOf h env child e) := by
  refine recent_then fun name _ => recent_then fun p hp => recent_guarded (recent_guarded ?_)
  exact (recent_parentNamed hh henv name).of_ok hp

theorem recent_interfaceNamed
    (hh : h.Renewed t) (henv : Recent t env) (name : String) :
    Recent t (interfaceNamed h env name) := by
  have hlookup := Scopes.Renewed.lookup hh.scopes henv name
  unfold interfaceNamed
  split
  · next i heq =>
      exact hh.interface? heq
  · split
    · next i heq => exact hlookup _ heq
    · exact recent_error.mpr (recent_cause _)
    · exact recent_error.mpr (recent_cause _)

theorem recent_resolveInterface
    (hh : h.Renewed t) (henv : Recent t env) (e : TypeExpr) :
    Recent t (resolveInterface h env child e) := by
  refine recent_then fun name _ => recent_then fun i hi => recent_guarded ?_
  exact (recent_interfaceNamed hh henv name).of_ok hi

theorem recent_interfacesOf
    (hh : h.Renewed t) (henv : Recent t env) (es : List TypeExpr) :
    Recent t (interfacesOf h env child es) := by
  cases his : interfacesOf h env child es with
  | error cause =>
      exact recent_error.mpr (recent_cause cause)
  | ok is =>
      intro i hi
      obtain ⟨e, -, he⟩ := of_interfacesOf his i hi
      exact (recent_resolveInterface hh henv e).of_ok he

/-! ### Methods -/

theorem recent_methodsOf
    (owner : String) (isStatic : Bool) (ms : List (MethodDecl Stmt)) (henv : Recent t env) :
    Recent t (methodsOf owner env isStatic ms) := by
  exact .map_list fun _ _ => henv

theorem recent_constructors
    (owner : String) (cs : List (ConstructorDecl Stmt)) (henv : Recent t env) :
    Recent t (cs.map (constructorOf owner env)) := by
  exact .map_list fun _ _ => henv

end Eval

theorem recent_toClass
    {id : Nat} {parent : Option ClassDef} {interfaces : List Interface} (d : ClassDecl Expr Stmt)
    (hid : t.statics ≤ id) (hparent : Recent t parent) (hinterfaces : Recent t interfaces)
    (henv : Recent t env) :
    Recent t (d.toClass id env parent interfaces) := by
  refine recent_class.mpr ⟨⟨hid, hinterfaces, ?_⟩, ?_⟩
  · exact ⟨Eval.recent_methodsOf _ _ _ henv, Eval.recent_methodsOf _ _ _ henv,
      Eval.recent_constructors _ _ henv, henv⟩
  · exact .getD (.map_some fun p hp => hparent p hp) recent_nil

/-! ### Declarations -/

namespace Oblivious

/-- The interfaces of a type are looked up. -/
theorem resolved
    {child : String} {g : List Interface → Eval α} (es : List TypeExpr) (henv : Recent t env)
    (hg : ∀ is, Recent t is → Oblivious t (g is) P) :
    Oblivious t (Eval.heap >>= fun h => Eval.ofExcept (Eval.interfacesOf h env child es) >>= g)
      P := by
  exact ask (fun h _ => Eval.interfacesOf_forget henv es)
    (fun h hh => Eval.recent_interfacesOf hh henv es) hg

theorem announceClass
    {c : ClassDef} (hc : Recent t c) (henv : Recent t env) :
    Oblivious t (Eval.announceClass c env) fun _ => True := by
  exact (modify (.putClass hc)).bind fun _ _ => define henv c.name hc _ _

section Values

variable [Unmindful t E]

theorem fillStatics
    {id : Nat} (owner : String) (hid : t.statics ≤ id) (henv : Recent t env)
    (fs : List (FieldDecl Expr)) :
    Oblivious t (Eval.fillStatics E id owner env fs) fun _ => True := by
  induction fs with
  | nil =>
      exact pure trivial
  | cons f rest ih =>
      have hnext {v : Value} (hv : Recent t v) : Oblivious t (do
          Eval.checkOption v (f.type.map TypeExpr.canonical) []
            s!"static field '{f.name}' of {owner}"
          Eval.modify (·.fillStatic id f.name ⟨v, f.kind, f.type.map TypeExpr.canonical⟩)
          Eval.fillStatics E id owner env rest) fun _ => True :=
        (checkOption hv _ _ _).bind fun _ _ => (modify (.fillStatic hid _ hv)).bind fun _ _ => ih
      unfold Eval.fillStatics
      dsimp only
      split
      · exact (Unmindful.eval henv _).bind fun v hv => hnext hv
      · exact (pure recent_vnil).bind fun v hv => hnext hv

theorem makeConstant
    {c : ClassDef} (hc : Recent t c) (k : EnumConstant Expr) (ordinal : Nat)
    (henv : Recent t env) :
    Oblivious t (Eval.makeConstant E c k ordinal env) fun _ => True := by
  refine (mapM fun e _ => Unmindful.eval henv e).bind fun args hargs => ?_
  refine (selectConstructor c.name hc.own.2.2.2.2.1 _).bind fun m hm => ?_
  refine (change (.newObject hc _ _)).bind fun o ho => ?_
  refine (construct ho hm hargs _).bind fun _ _ => modify ?_
  exact .addConstant hc.classId _ (recent_object.mpr ho)

theorem makeConstants
    {c : ClassDef} (hc : Recent t c) (henv : Recent t env) (ordinal : Nat)
    (ks : List (EnumConstant Expr)) :
    Oblivious t (Eval.makeConstants E c env ordinal ks) fun _ => True := by
  induction ks generalizing ordinal with
  | nil =>
      exact pure trivial
  | cons k rest ih =>
      exact (makeConstant hc k ordinal henv).bind fun _ _ => ih _

theorem declareClass
    (d : ClassDecl Expr Stmt) (henv : Recent t env) :
    Oblivious t (Eval.declareClass E d env) fun _ => True := by
  have hrest {parent : Option ClassDef} {interfaces : List Interface} (hparent : Recent t parent)
      (hinterfaces : Recent t interfaces) : Oblivious t (do
        Eval.unlessFault (varianceFault? d.typeParams (Eval.methodsOf d.name env false d.methods))
        let id ← Eval.change Heap.newStatics
        let c := d.toClass id env parent interfaces
        if !d.isAbstract then Eval.unlessFault c.missingBody?
        Eval.announceClass c env
        Eval.fillStatics E id d.name env (Eval.staticFields d.fields)
        Eval.modify (·.endDeclaration id)) fun _ => True := by
    refine (unlessFault _).bind fun _ _ => (change .newStatics).bind fun id hid => ?_
    have hc := recent_toClass d hid hparent hinterfaces henv
    have hfilled := (announceClass hc henv).bind fun _ _ =>
      (fillStatics (E := E) d.name hid henv (Eval.staticFields d.fields)).bind fun _ _ =>
        modify (.endDeclaration hid)
    dsimp only
    split
    · exact (unlessFault _).bind fun _ _ => hfilled
    · exact hfilled
  refine look (fun h hh => ?_) fun h hh => ?_
  · simp only [Eval.parentOf_forget henv, Eval.interfacesOf_forget henv]
  have hinterfaces (is : List Interface)
      (his : Eval.interfacesOf h env d.name d.interfaces = .ok is) : Recent t is :=
    (Eval.recent_interfacesOf hh henv d.interfaces).of_ok his
  dsimp only
  split
  · refine (ofExcept fun p hp => (Eval.recent_parentOf hh henv _).of_ok hp).bind fun p hp => ?_
    refine (pure (recent_some.mpr hp)).bind fun parent hparent => ?_
    exact (ofExcept hinterfaces).bind fun is his => hrest hparent his
  · refine (pure (P := Recent t) recent_none).bind fun parent hparent => ?_
    exact (ofExcept hinterfaces).bind fun is his => hrest hparent his

theorem declareInterface
    (d : InterfaceDecl Expr Stmt) (henv : Recent t env) :
    Oblivious t (Eval.declareInterface E d env) fun _ => True := by
  refine resolved d.parents henv fun parents hparents => ?_
  refine (unlessFault _).bind fun _ _ => (change .newStatics).bind fun id hid => ?_
  have hi : Recent t (d.toInterface id env parents) :=
    recent_interface.mpr ⟨hid, .map_list fun _ _ => henv, hparents⟩
  refine (modify (.putInterface hi)).bind fun _ _ => (define henv _ hi _ _).bind fun _ _ => ?_
  exact (fillStatics _ hid henv _).bind fun _ _ => modify (.endDeclaration hid)

theorem declareEnum
    (d : EnumDecl Expr Stmt) (henv : Recent t env) :
    Oblivious t (Eval.declareEnum E d env) fun _ => True := by
  refine resolved d.interfaces henv fun interfaces hinterfaces => ?_
  refine (change .newStatics).bind fun id hid => ?_
  have hc : Recent t (d.toClass id env interfaces) := by
    refine recent_class.mpr ⟨⟨hid, hinterfaces, ?_⟩, recent_nil⟩
    exact ⟨Eval.recent_methodsOf _ _ _ henv, Eval.recent_methodsOf _ _ _ henv,
      Eval.recent_constructors _ _ henv, henv⟩
  refine (unlessFault _).bind fun _ _ => (announceClass hc henv).bind fun _ _ => ?_
  refine (makeConstants hc henv _ _).bind fun _ _ => ?_
  exact (fillStatics _ hid henv _).bind fun _ _ => modify (.endDeclaration hid)

end Values

theorem declareRecord
    (d : RecordDecl Stmt) (henv : Recent t env) :
    Oblivious t (Eval.declareRecord d env) fun _ => True := by
  refine resolved d.interfaces henv fun interfaces hinterfaces => ?_
  refine (unlessFault _).bind fun _ _ => (change .newStatics).bind fun id hid => ?_
  have hc : Recent t (d.toClass id env interfaces) := by
    refine recent_class.mpr ⟨⟨hid, hinterfaces, ?_⟩, recent_nil⟩
    exact ⟨Eval.recent_methodsOf _ _ _ henv, Eval.recent_methodsOf _ _ _ henv, recent_nil, henv⟩
  refine (unlessFault _).bind fun _ _ => (announceClass hc henv).bind fun _ _ => ?_
  exact modify (.endDeclaration hid)

end Oblivious
end ScriptEngine
