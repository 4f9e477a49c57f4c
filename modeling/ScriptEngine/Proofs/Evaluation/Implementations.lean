import ScriptEngine.Proofs.Evaluation.Checks
import ScriptEngine.Proofs.Stores.Session

/-!
# What is abstract, and the bodies that answer for it

A class that is not abstract has a body for everything abstract in its lineage and in the
interfaces in its reach.  Its declaration sees to that by name: some method of the name has a body.
A call goes by name and by the number of its arguments.

So a call of what is abstract never misses, and it never meets a method without a body.  It goes to
a body that takes the number of its arguments, if there is one of the name (`answers_of_accepts`),
and otherwise it ends in the fault of the arguments (`refuses_of_not_accepts`), whatever numbers the
abstract method takes.
-/

namespace ScriptEngine

namespace ClassDef

/-- A method is abstract in the lineage of a class or in an interface in reach. -/
inductive DemandsMethod (c : ClassDef) (m : Method) : Prop
  | lineage {l : ClassLayer} :
      l ∈ c.layers → m ∈ l.methods → m.isAbstract = true → DemandsMethod c m
  | interface {i : Interface} :
      c.Reaches i → m ∈ i.own.methods → m.isAbstract = true → DemandsMethod c m

theorem DemandsMethod.demands {c : ClassDef} {m : Method} (hm : c.DemandsMethod m) :
    c.Demands m.name := by
  cases hm with
  | lineage hl hm habstract => exact .lineage hl hm rfl habstract
  | interface hi hm habstract => exact .interface hi hm rfl habstract

/-- Calls of a name with some arguments on the instances of a class go to a body of the name that
takes so many: where the name is looked up for the call, once the access is granted, and where the
method was taken from the instance before. -/
def Answers (c : ClassDef) (name : String) (args : List Value) : Prop :=
  ∃ m ∈ c.usableMethods name, ∃ body, m.body = some body ∧
    Overload.accepts m.params args.length = true ∧
    ∀ (E : Engine) (o : Instance) (site : Span) (ctx : Context) (h : Heap), o.cls = c →
      ∃ i : Invocation, i.params = m.params ∧ i.body = .block body ∧
        (∀ typeArgs env, Eval.callMember E (.object o) name args typeArgs env site ctx h =
          (Eval.requireAccess m.visibility name m.owner env >>= fun _ =>
            Eval.invoke E i args site) ctx h) ∧
        ∀ id typeArgs, Eval.applyValue E (.instanceMethod id o c name) args typeArgs site ctx h =
          Eval.invoke E i args site ctx h

/-- Calls of a name with some arguments on the instances of a class end in the fault of their
number. -/
def Refuses (c : ClassDef) (name : String) (args : List Value) : Prop :=
  ∀ (E : Engine) (o : Instance) (site : Span) (ctx : Context) (h : Heap), o.cls = c →
    let cause := Overload.arityFault Method.params (c.usableMethods name) args.length
    (∀ typeArgs env, Eval.callMember E (.object o) name args typeArgs env site ctx h =
      (Eval.fault cause : Eval Value) ctx h) ∧
    ∀ id typeArgs, Eval.applyValue E (.instanceMethod id o c name) args typeArgs site ctx h =
      (Eval.fault cause : Eval Value) ctx h

end ClassDef

namespace Eval

variable {E : Engine} {o : Instance} {m : Method} {name : String} {env : Env} {args : List Value}
variable {typeArgs : List TypeExpr} {site : Span}

/-- A call on an instance that has bodies of the name is one of the body that is selected. -/
theorem callMember_of_usable (hne : o.cls.usableMethods name ≠ []) :
    callMember E (.object o) name args typeArgs env site = (do
      let m ← selectMethod (o.cls.usableMethods name) args.length
      requireAccess m.visibility name m.owner env
      runMethod E o m args site) := by
  show callInstanceMember E o name args typeArgs env site = _
  unfold callInstanceMember
  cases hmethods : o.cls.usableMethods name with
  | nil => exact absurd hmethods hne
  | cons m ms => rfl

/-- A body that takes the number of arguments runs. -/
theorem runMethod_of_accepts
    {body : List Stmt} (E : Engine) (o : Instance) (site : Span) (ctx : Context) (h : Heap)
    (hbody : m.body = some body) (haccepts : Overload.accepts m.params args.length = true) :
    ∃ i : Invocation, i.params = m.params ∧ i.body = .block body ∧
      runMethod E o m args site ctx h = invoke E i args site ctx h := by
  unfold runMethod bodyOf
  rw [hbody, haccepts]
  exact ⟨_, rfl, rfl, rfl⟩

end Eval

namespace ClassDef

variable {c : ClassDef} {name : String} {args : List Value}

/-- Where some body of the name takes the number of arguments, a call goes to one. -/
theorem answers_of_accepts {n : Method}
    (hn : n ∈ c.usableMethods name) (haccepts : Overload.accepts n.params args.length = true) :
    c.Answers name args := by
  obtain ⟨m, hselect⟩ :
      ∃ m, Overload.select Method.params (c.usableMethods name) args.length = some m :=
    Overload.exists_select hn haccepts
  have hm := Overload.mem_of_select hselect
  obtain ⟨body, hbody⟩ := Option.isSome_iff_exists.mp (c.of_mem_usableMethods hm).2
  have hfits := Overload.accepts_of_select hselect
  refine ⟨m, hm, body, hbody, hfits, fun E o site ctx h ho => ?_⟩
  obtain ⟨i, hparams, hblock, hruns⟩ :=
    Eval.runMethod_of_accepts E o site ctx h hbody hfits
  subst ho
  refine ⟨i, hparams, hblock, fun typeArgs env => ?_, fun id typeArgs => ?_⟩
  · rw [Eval.callMember_of_usable (List.ne_nil_of_mem hm), Eval.bind_apply, Eval.selectMethod,
      hselect]
    show (Eval.requireAccess m.visibility name m.owner env >>= fun _ =>
      Eval.runMethod E o m args site) ctx h = _
    rw [Eval.bind_apply, Eval.bind_apply, Eval.requireAccess_apply]
    cases Eval.accessFault? h m.visibility name m.owner env with
    | none => exact hruns
    | some cause => rfl
  · show (Eval.selectMethod (o.cls.usableMethods name) args.length >>= fun m =>
      Eval.runMethod E o m args site) ctx h = _
    rw [Eval.bind_apply, Eval.selectMethod, hselect]
    exact hruns

/-- Where no body of the name takes the number of arguments, a call is refused. -/
theorem refuses_of_not_accepts
    (hne : c.usableMethods name ≠ [])
    (hnone : ∀ n ∈ c.usableMethods name, Overload.accepts n.params args.length = false) :
    c.Refuses name args := by
  have hselect : Overload.select Method.params (c.usableMethods name) args.length = none := by
    rw [Option.eq_none_iff_forall_not_mem]
    intro m hm
    have hfits := Overload.accepts_of_select hm
    rw [hnone m (Overload.mem_of_select hm)] at hfits
    nomatch hfits
  intro E o site ctx h ho
  subst ho
  refine ⟨fun typeArgs env => ?_, fun id typeArgs => ?_⟩
  · rw [Eval.callMember_of_usable hne, Eval.bind_apply, Eval.selectMethod, hselect]
    rfl
  · show (Eval.selectMethod (o.cls.usableMethods name) args.length >>= fun m =>
      Eval.runMethod E o m args site) ctx h = _
    rw [Eval.bind_apply, Eval.selectMethod, hselect]
    rfl

end ClassDef

namespace Session

/-- At every moment of a run the classes that are declared and not abstract have a body for each
name of what is abstract in their lineage or in their reach; and from then on a call of it with any
number of arguments goes to a body, if one of the name takes so many, and is refused for their
number, if none does. -/
def KeepsImplemented (s : Session) (p : Program) : Prop :=
  ∀ r ws h, Eval.Reaches s.limit (s.begin p) s.waiting r ws → r.heap? = some h →
    ∀ name c, Registry.cls? h.registry name = some c → c.own.isAbstract = false →
      ∀ m, c.DemandsMethod m →
        (∃ n ∈ c.usableMethods m.name, n.body.isSome) ∧
        ∀ args : List Value,
          ((∃ n ∈ c.usableMethods m.name, Overload.accepts n.params args.length = true) →
            c.Answers m.name args) ∧
          ((∀ n ∈ c.usableMethods m.name, Overload.accepts n.params args.length = false) →
            c.Refuses m.name args)

/-- In every run of every program a class that is not abstract answers for what is abstract, as far
as its bodies take the arguments. -/
theorem after_keepsImplemented
    (limit : Nat) (actions : List Action) (p : Program) :
    (after limit actions).KeepsImplemented p := by
  intro r ws h hreach hh name c hc hconcrete m hm
  have hlawful : Registry.Lawful h.registry :=
    ((Stocked.after limit actions).keepsTypesLawful p r ws h hreach hh).1
  have hfind : h.registry.find? name = some (.cls c) := Registry.find?_of_cls? hc
  obtain ⟨n, hn, -, hbody⟩ :=
    (hlawful.types hfind).2.complete c rfl hconcrete m.name hm.demands
  refine ⟨⟨n, hn, hbody⟩, fun args => ⟨?_, ?_⟩⟩
  · rintro ⟨k, hk, haccepts⟩
    exact ClassDef.answers_of_accepts hk haccepts
  · exact ClassDef.refuses_of_not_accepts (List.ne_nil_of_mem hn)

end Session
end ScriptEngine
