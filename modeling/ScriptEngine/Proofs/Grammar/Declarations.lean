import ScriptEngine.Proofs.Grammar.Expressions

/-!
# Declarations in the same layout

Functions, members, classes, interfaces, enums and records are alike on texts of the same layout.
-/

namespace ScriptEngine
namespace Grammar

/-- Members that differ in their spans only. -/
structure Members.Alike (m n : Members) : Prop where
  fields : List.Forall₂ (FieldDecl.Alike Expr.Alike) m.fields n.fields
  methods : List.Forall₂ (MethodDecl.Alike Stmt.Alike) m.methods n.methods
  constructors : List.Forall₂ (ConstructorDecl.Alike Stmt.Alike) m.constructors n.constructors

theorem bindingKindOf_eq
    {t u : Token} (h : t.Alike u) :
    bindingKindOf t = bindingKindOf u := by
  cases h <;> rfl

namespace Alongside

variable {g g' : Reader} {c : Prop} {k : Nat}

theorem permits :
    Alongside c k noneOwes Eq Grammar.permits Grammar.permits := by
  refine (eatMark _).same fun _ => either ?_ (pure rfl)
  refine same (repeatSame fun _ => ?_) fun _ => (expectMark _).same fun _ => pure rfl
  refine (atMark _).same fun _ => either (result (.done rfl) id) ?_
  exact expectName.paidSame fun _ => more rfl

theorem modifiers :
    Alongside c k noneOwes Eq Grammar.modifiers Grammar.modifiers := by
  refine repeatSame fun m => front fun t u ht _ => ?_
  cases ht with
  | keyword w =>
      cases w with
      | publicKw | privateKw | protectedKw | staticKw | abstractKw =>
          exact step (pure (.again rfl)) rfl
      | _ =>
          exact result (.done rfl) id
  | _ =>
      exact result (.done rfl) id

theorem failNoMember
    {α β : Type} {R : α → β → Prop} {e : α → Prop} (owner : String) :
    Alongside c k e R (Grammar.failNoMember owner) (Grammar.failNoMember owner) := by
  refine (unexpected _).bind fun _ _ ⟨h, hbound⟩ => throw ?_ hbound
  cases h with
  | mk hcause =>
      exact .mk hcause

variable (hg : g.Alongside k g')
include hg

/-! ### Functions -/

theorem functionBody
    {a b : Span} :
    Alongside c k noneOwes (List.Forall₂ Stmt.Alike) (Grammar.functionBody g a)
      (Grammar.functionBody g' b) := by
  refine (eatMark _).same fun _ => either ?_ ?_
  · exact hg.expression.bind fun _ _ h => pure (.cons (.ret (.some h)) .nil)
  · refine (eatMark _).same fun _ => (block hg _).bind fun _ _ h => ?_
    exact (closeBlock _).same fun _ => pure h

theorem functionDecl
    (mode : BodyRule) :
    Alongside c (k + 1) allOwe (Prod.RProd (FunctionDecl.Alike Stmt.Alike) Eq)
      (Grammar.functionDecl g mode) (Grammar.functionDecl g' mode) := by
  refine place fun a b => (expectWord _).paySame fun _ => expectName.same fun name => ?_
  refine (atMark _).same fun _ => optionalSame (typeParams hg) fun typeParams => ?_
  refine (params hg).down.bind fun ps qs hparams => (eatMark _).same fun _ => ?_
  refine optionalSame hg.type.someSame fun returns => ?_
  extract_lets j j'
  have hj : ∀ hasBody, Alongside False k noneOwes (Prod.RProd (FunctionDecl.Alike Stmt.Alike) Eq)
      (j hasBody) (j' hasBody) := by
    intro hasBody
    refine optional (functionBody hg) .nil fun _ _ hbody => ?_
    exact since fun _ _ => pure (.intro (.mk hparams hbody) rfl)
  clear_value j j'
  cases mode with
  | required =>
      exact same (pure rfl) hj
  | absent =>
      exact same (pure rfl) hj
  | ifMarked =>
      refine (atMark _).same fun _ => either ?_ ((atMark _).same hj)
      exact same (pure rfl) hj

/-! ### Members -/

theorem initializer :
    Alongside c k noneOwes (Option.Rel Expr.Alike) (Grammar.initializer g)
      (Grammar.initializer g') := by
  refine (eatMark _).same fun _ => either hg.expression.some ?_
  exact (eatMark _).same fun _ => either hg.expression.some (pure .none)

/-- A field; its way of binding stands in front. -/
theorem fieldDecl
    (modifiers : Modifiers) {a b : Span} (hc : c) :
    Alongside c k allOwe (FieldDecl.Alike Expr.Alike) (Grammar.fieldDecl g modifiers a)
      (Grammar.fieldDecl g' modifiers b) := by
  refine current.bind fun t u ht => ?_
  rw [bindingKindOf_eq ht]
  refine step (expectName.same fun _ => (optionalType hg).same fun _ => ?_) hc
  exact (initializer hg).bind fun _ _ hinit => since fun _ _ => pure (.mk hinit)

/-- A constructor; its name stands in front. -/
theorem constructorDecl
    {a b : Span} (hc : c) :
    Alongside c k allOwe (ConstructorDecl.Alike Stmt.Alike) (Grammar.constructorDecl g a)
      (Grammar.constructorDecl g' b) := by
  refine step ((params hg).down.bind fun _ _ hparams => (eatMark _).same fun _ => ?_) hc
  refine (block hg _).bind fun _ _ hbody => (closeBlock _).same fun _ => ?_
  exact since fun _ _ => pure (.mk hparams hbody)

theorem member
    (owner : String) (context : OwnerKind) {m n : Members} (h : m.Alike n) :
    Alongside c k allOwe Members.Alike (Grammar.member g owner context m)
      (Grammar.member g' owner context n) := by
  refine place fun a b => modifiers.same fun modifiers => front fun t u ht _ => ?_
  cases ht with
  | keyword w =>
      cases w with
      | varKw | letKw | constKw | finalKw =>
          refine either (invalid _) ((fieldDecl hg _ rfl).paid fun _ _ hfield => pure ?_)
          exact ⟨forall₂_concat h.fields hfield, h.methods, h.constructors⟩
      | defKw =>
          refine (functionDecl hg _).down.paid fun x y hfunction => pure ?_
          cases hfunction with
          | intro hfunction hbody =>
              subst hbody
              exact ⟨h.fields, forall₂_concat h.methods (.mk hfunction), h.constructors⟩
      | _ =>
          exact failNoMember owner
  | identifier name =>
      refine either ((peek 1).bind fun _ _ hnext => ?_) (failNoMember owner)
      rw [hnext.isMark_eq]
      refine either ((constructorDecl hg rfl).paid fun _ _ hconstructor => pure ?_)
        (failNoMember owner)
      exact ⟨h.fields, h.methods, forall₂_concat h.constructors hconstructor⟩
  | _ =>
      exact failNoMember owner

theorem members
    (owner : String) (context : OwnerKind) :
    Alongside c k noneOwes Members.Alike (Grammar.members g owner context)
      (Grammar.members g' owner context) := by
  refine repeatRead (R := Members.Alike) (fun m n h => ?_) ⟨.nil, .nil, .nil⟩
  refine (atWord _).same fun _ => either (result (.done h) id) ?_
  refine atEof.same fun _ => either (result (.done h) id) ?_
  refine ifEaten (eatMark _) (pure (.again h)) ?_
  exact (member hg owner context h).paid fun _ _ h => pure (.again h)

theorem implementedTypes :
    Alongside c k noneOwes Eq (Grammar.implementedTypes g) (Grammar.implementedTypes g') :=
  (eatWord _).same fun _ => either (typeList hg) (pure rfl)

/-! ### Types -/

theorem classDecl
    (isSealed : Bool) {a b : Span} :
    Alongside c (k + 1) allOwe Stmt.Alike (Grammar.classDecl g a isSealed)
      (Grammar.classDecl g' b isSealed) := by
  refine (eatWord _).same fun isAbstract => (expectWord _).paySame fun _ => ?_
  refine expectName.same fun name => (optionalTypeParams hg).same fun typeParams => ?_
  refine permits.same fun permits => (eatMark _).same fun less => ?_
  extract_lets -underBinder j j'
  have hj : ∀ hasParent, Alongside False k noneOwes Stmt.Alike (j hasParent) (j' hasParent) := by
    intro hasParent
    refine optionalSame hg.type.someSame fun parent => (implementedTypes hg).same fun _ => ?_
    refine (eatMark _).same fun _ => (members hg name .classLike).bind fun m n h => ?_
    refine (closeBlock _).same fun _ => since fun _ _ => pure ?_
    exact .classDecl (.mk h.fields h.methods h.constructors)
  clear_value j j'
  exact either (same (pure rfl) hj) ((eatWord _).same hj)

theorem interfaceDecl
    (isSealed : Bool) {a b : Span} :
    Alongside c (k + 1) allOwe Stmt.Alike (Grammar.interfaceDecl g a isSealed)
      (Grammar.interfaceDecl g' b isSealed) := by
  refine (expectWord _).paySame fun _ => expectName.same fun name => ?_
  refine (optionalTypeParams hg).same fun typeParams => permits.same fun permits => ?_
  refine (eatWord _).same fun _ => optionalSame (typeList hg) fun parents => ?_
  refine (eatMark _).same fun _ => (members hg name .interface).bind fun m n h => ?_
  refine (closeBlock _).same fun _ => since fun _ _ => pure ?_
  exact .interfaceDecl (.mk h.methods h.fields)

theorem enumRound
    (owner : String) {ks ks' : List (EnumConstant Expr)}
    (h : List.Forall₂ (EnumConstant.Alike Expr.Alike) ks ks') :
    Alongside c k Round.GoesOn
      (Round.Alike (List.Forall₂ (EnumConstant.Alike Expr.Alike))
        (List.Forall₂ (EnumConstant.Alike Expr.Alike)))
      (Grammar.enumRound g owner ks) (Grammar.enumRound g' owner ks') := by
  refine front fun t u ht _ => ?_
  cases ht with
  | identifier name =>
      dsimp -zeta only
      extract_lets -underBinder j j'
      have hj : Alongside ((Token.identifier name).isEof = false) k Round.GoesOn
          (Round.Alike (List.Forall₂ (EnumConstant.Alike Expr.Alike))
            (List.Forall₂ (EnumConstant.Alike Expr.Alike))) (j ()) (j' ()) := by
        refine place fun a b => step ((atMark _).same fun _ => ?_) rfl
        refine optionalSame (continuesLine.alongside fun _ => id) fun hasArgs => ?_
        refine optional (arguments hg).down.forgive .nil fun _ _ hargs => since fun _ _ => ?_
        refine (eatMark _).same fun _ => (eatMark _).same fun _ => pure (.again ?_)
        exact forall₂_concat h (.mk hargs)
      clear_value j j'
      refine either ((peek 1).bind fun _ _ hnext => ?_) hj
      rw [hnext.isMark_eq]
      exact either (result (.done h) id) hj
  | _ =>
      exact result (.done h) id

theorem enumDecl
    (isSealed : Bool) {a b : Span} :
    Alongside c (k + 1) allOwe Stmt.Alike (Grammar.enumDecl g a isSealed)
      (Grammar.enumDecl g' b isSealed) := by
  refine (expectWord _).paySame fun _ => expectName.same fun name => permits.same fun _ => ?_
  refine (implementedTypes hg).same fun _ => (eatMark _).same fun _ => ?_
  refine (gather fun _ _ h => enumRound hg name h).bind fun _ _ hconstants => ?_
  refine (members hg name .classLike).bind fun m n h => (closeBlock _).same fun _ => ?_
  refine since fun _ _ => pure ?_
  exact .enumDecl (.mk hconstants h.fields h.methods h.constructors)

theorem recordDecl :
    Alongside c (k + 1) allOwe Stmt.Alike (Grammar.recordDecl g) (Grammar.recordDecl g') := by
  refine place fun a b => (expectWord _).paySame fun _ => expectName.same fun name => ?_
  refine (optionalTypeParams hg).same fun _ => (params hg).down.bind fun ps qs hparams => ?_
  extract_lets -underBinder j j'
  have hj : Alongside False k noneOwes Stmt.Alike (j ()) (j' ()) := by
    refine (implementedTypes hg).same fun _ => (eatMark _).same fun _ => ?_
    refine (members hg name .record).bind fun m n h => (closeBlock _).same fun _ => ?_
    exact since fun _ _ => pure (.recordDecl (.mk hparams h.methods))
  clear_value j j'
  have hfound := forall₂_find? (p := Param.variadic) (q := Param.variadic) hparams fun _ _ h => by
    cases h
    rfl
  generalize ps.find? Param.variadic = x at hfound
  generalize qs.find? Param.variadic = y at hfound
  cases hfound with
  | some _ =>
      exact invalid _
  | none =>
      exact hj

theorem sealedDecl :
    Alongside c (k + 1) allOwe Stmt.Alike (Grammar.sealedDecl g) (Grammar.sealedDecl g') := by
  refine place fun a b => (expectWord _).paySame fun _ => current.bind fun t u ht => ?_
  cases ht with
  | keyword w =>
      cases w with
      | classKw | abstractKw =>
          exact (classDecl hg true).down.forgive
      | interfaceKw =>
          exact (interfaceDecl hg true).down.forgive
      | enumKw =>
          exact (enumDecl hg true).down.forgive
      | _ =>
          exact failExpecting _
  | _ =>
      exact failExpecting _

end Alongside
end Grammar
end ScriptEngine
