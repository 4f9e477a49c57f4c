import ScriptEngine.Proofs.Seams.Expressions

/-!
# Declarations and statements where one text meets the next
-/

namespace ScriptEngine
namespace Grammar
namespace Persists

variable {α β : Type} {F : Token → Prop} {k i m : Nat} {b : Prop} {l : Load} {g : Reader}

/-- Whether a mark is in front that cannot begin the second text. -/
theorem asked
    {w : Mark} {f : Bool → Parse β} (hf : ∀ x, Persists anything k b l i m (f x))
    (hw : (Token.mark w).opens = false) :
    Persists F k b l i m (Grammar.atMark w >>= f) := by
  have hsplit : (Grammar.atMark w >>= f) = (do if ← Grammar.atMark w then f true else f false) := by
    congr
    funext x
    cases x <;> rfl
  rw [hsplit]
  exact ifMark (hf true).anywhere (hf false).anywhere fun _ _ => hw

/-- Whether a token is eaten that cannot begin the second text. -/
theorem eaten
    {u : Token} {ate : Parse Bool} {f : Bool → Parse β} (hate : Eats u ate)
    (hf : ∀ x, Persists anything k b l i m (f x)) (hlast : u.isLast = true)
    (hu : u.opens = false) :
    Persists F k b l i m (ate >>= f) := by
  obtain ⟨hinner, hplain⟩ := (Bool.and_eq_true _ _).mp hlast
  have hplain : u.promises = false := by simpa using hplain
  have hsplit : (ate >>= f) = (do if ← ate then f true else f false) := by
    congr
    funext x
    cases x <;> rfl
  rw [hsplit]
  refine ifEaten hate (Token.isEof_of_isInner hinner) ?_ (hf false).anywhere fun _ _ => hu
  exact (consumeInner hinner fun _ => hplain).bind fun _ => hf true

theorem permits :
    Persists F k False .nothing i i Grammar.permits := by
  refine ifEaten (.mark .leftParen) rfl ?_ (pure []) False.elim
  refine (consume rfl (fun h => by cases h) .opening False.elim).forgive.bind fun _ => ?_
  refine (repeatRead (l := .nothing) (fun names => ?_) []).bind
    fun _ => expectClosing.forgive.bind fun _ => pure _
  refine Persists.atMark _ (fun _ => either (pure _) ?_) .inside
  exact expectName.forgive.bind fun _ => more _

theorem modifiers :
    Persists F k False .nothing i i Grammar.modifiers := by
  refine repeatRead (fun m => front (fun t _ => ?_) .inside) _
  cases t with
  | keyword w =>
      cases w with
      | publicKw | privateKw | protectedKw | staticKw | abstractKw =>
          exact forgive (down (step rfl (pure _)))
      | _ =>
          exact pure _
  | _ =>
      exact pure _

theorem failNoMember
    (owner : String) :
    Persists F k b l i m (Grammar.failNoMember owner : Parse α) :=
  fails fun _ _ _ h => by cases h

variable (hg : g.Persists k)
include hg

/-! ### Functions -/

theorem functionBody
    (a : Span) :
    Persists F k b .something i i (Grammar.functionBody g a) := by
  refine ifEaten (.mark .equal) rfl ?_ ?_ fun _ _ => rfl
  · exact down (stepOn rfl (hg.expression.paid fun _ => pure _) rfl)
  · refine (eatMark rfl).inside (fun _ => (block hg _).inside (fun _ => ?_) rfl) rfl
    exact (moving (closeBlock _ _) rfl).paid fun _ => pure _

theorem functionDecl
    (mode : BodyRule) :
    Persists F (k + 1) b .something i i (Grammar.functionDecl g mode) := by
  refine place (fun a => (expectWord rfl).pay (fun _ => ?_) rfl) (.moving rfl)
  refine expectName.forgive.bind fun name => asked (fun _ => ?_) rfl
  extract_lets -underBinder j
  have hj : ∀ typeParams, Persists anything k b .nothing i i (j typeParams) := by
    intro typeParams
    refine (params hg).down.forgive.bind fun ps => eaten (.mark _) (fun _ => ?_) rfl rfl
    extract_lets -underBinder l
    have hl : ∀ returns, Persists anything k b .nothing i i (l returns) := by
      intro returns
      dsimp -zeta only [l]
      extract_lets -underBinder n
      have hn : ∀ hasBody, Persists anything k b .nothing i i (n hasBody) := fun hasBody =>
        optional ((functionBody hg a).forgive.bind fun _ => since fun _ => pure _)
          (since fun _ => pure _)
      clear_value n
      cases mode with
      | required =>
          exact hn true
      | absent =>
          exact hn false
      | ifMarked =>
          exact asked (fun _ => either (hn true) (asked hn rfl)) rfl
    clear_value l
    exact either (hg.type.forgive.map.bind hl) (hl none)
  clear_value j
  exact either ((typeParams hg).forgive.bind hj) (hj [])

/-! ### Members -/

theorem initializer :
    Persists F k b .nothing i i (Grammar.initializer g) := by
  refine ifEaten (.mark .equal) rfl ?_ (ifEaten (.mark .colonEqual) rfl ?_ (pure none) ?_) ?_
  · exact forgive (down (step rfl hg.expression.map.forgive))
  · exact forgive (down (step rfl hg.expression.map.forgive))
  · exact fun _ _ => rfl
  · exact fun _ _ => rfl

/-- A field; its way of binding stands in front. -/
theorem fieldDecl
    {t : Token} (modifiers : Modifiers) (a : Span) (ht : t.isLast = true) :
    Persists (· = t) k b .something i i (Grammar.fieldDecl g modifiers a) := by
  refine current (fun u => down (step ht ?_)) (.moving rfl)
  refine expectName.forgive.bind fun name => (optionalType hg).bind fun _ => ?_
  exact (initializer hg).bind fun _ => since fun _ => pure _

/-- A constructor; its name stands in front. -/
theorem constructorDecl
    {t : Token} (a : Span) (ht : t.isInner = true) :
    Persists (· = t) k b .something i i (Grammar.constructorDecl g a) := by
  refine down (stepOn ht (l := .something) ?_ rfl)
  refine (params hg).down.inside (fun ps => (eatMark rfl).inside (fun _ => ?_) rfl) rfl
  refine (block hg _).inside (l := .something) (fun _ => ?_) rfl
  exact (moving (closeBlock _ _) rfl).paid fun _ => since fun _ => pure _

theorem member
    (owner : String) (context : OwnerKind) (ms : Members) :
    Persists F k False .something i i (Grammar.member g owner context ms) := by
  refine place (fun a => modifiers.bind fun modifiers => front (fun t _ => ?_) .inside) .inside
  cases t with
  | keyword w =>
      cases w with
      | varKw | letKw | constKw | finalKw =>
          exact either (invalid _ _) ((fieldDecl hg _ _ rfl).paid fun _ => pure _)
      | defKw =>
          exact (functionDecl hg _).down.paid fun _ => pure _
      | _ =>
          exact failNoMember owner
  | identifier name =>
      refine either (ifNextOpening ?_ (failNoMember owner) (by rintro _ rfl; rfl) ?_)
        (failNoMember owner)
      · exact (constructorDecl hg _ rfl).paid fun _ => pure _
      · exact fun _ _ _ _ _ _ h => by cases h
  | _ =>
      exact failNoMember owner

theorem members
    (owner : String) (context : OwnerKind) :
    Persists F k False .nothing i i (Grammar.members g owner context) := by
  refine repeatRead (fun ms => atWord _ (fun _ => either (pure _) ?_) .inside) _
  refine atEof (fun _ => either (pure _) ?_) .inside
  refine ifEaten (.mark .semicolon) rfl ?_ ?_ False.elim
  · exact forgive (down (step rfl (pure _)))
  · exact (member hg owner context ms).forgive.bind fun _ => pure _

theorem implementedTypes :
    Persists F k False .nothing i i (Grammar.implementedTypes g) := by
  refine ifEaten (.word .implementsKw) rfl ?_ (pure []) False.elim
  exact forgive (down (step rfl (typeList hg)))

/-! ### Types -/

/-- Members and the word that closes their declaration. -/
theorem closedMembers
    {f : Members → Span → Parse Stmt} (owner : String) (context : OwnerKind) (openedBy : String)
    (a : Span) (hf : ∀ ms b', Persists anything k b .nothing i i (f ms b')) :
    Persists F k b .closure i i
      (do
        let _ ← Grammar.eatMark .colon
        let ms ← Grammar.members g owner context
        Grammar.closeBlock openedBy a
        f ms (← spanSince a)) := by
  refine (eatMark rfl).inside (fun _ => (members hg owner context).inside (fun ms => ?_) rfl) rfl
  exact (closeBlock _ _).paid fun _ => since fun b' => hf ms b'

theorem classDecl
    (isSealed : Bool) (a : Span) :
    Persists F (k + 1) b .something i i (Grammar.classDecl g a isSealed) := by
  refine eatWord.inside (fun isAbstract => (expectWord rfl).pay (fun _ => ?_) rfl) rfl
  refine forgive (l := .closure) (expectName.inside (fun name => ?_) rfl)
  refine optionalTypeParams hg fun typeParams => permits.inside (fun permits => ?_) rfl
  refine (eatMark rfl).inside (fun less => ?_) rfl
  extract_lets -underBinder j
  have hj : ∀ hasParent, Persists anything k b .closure i i (j hasParent) := by
    intro hasParent
    dsimp -zeta only [j]
    extract_lets -underBinder n
    have hn : ∀ parent, Persists anything k b .closure i i (n parent) := fun parent =>
      (implementedTypes hg).inside (fun _ => closedMembers hg _ _ _ _ fun _ _ => pure _) rfl
    clear_value n
    exact either (hg.type.forgive.map.inside hn rfl) (hn none)
  clear_value j
  exact either (hj true) (eatWord.inside hj rfl)

theorem interfaceDecl
    (isSealed : Bool) (a : Span) :
    Persists F (k + 1) b .something i i (Grammar.interfaceDecl g a isSealed) := by
  refine (expectWord rfl).pay (fun _ => ?_) rfl
  refine forgive (l := .closure) (expectName.inside (fun name => ?_) rfl)
  refine optionalTypeParams hg fun typeParams => permits.inside (fun permits => ?_) rfl
  refine eatWord.inside (fun extended => ?_) rfl
  extract_lets -underBinder j
  have hj : ∀ parents, Persists anything k b .closure i i (j parents) := fun parents =>
    closedMembers hg _ _ _ _ fun _ _ => pure _
  clear_value j
  exact either ((typeList hg).inside hj rfl) (hj [])

theorem enumRound
    (owner : String) (acc : List (EnumConstant Expr)) :
    Persists F k False .nothing i i (Grammar.enumRound g owner acc) := by
  refine front (fun t _ => ?_) .inside
  cases t with
  | identifier name =>
      dsimp -zeta only
      extract_lets -underBinder j
      have hj : Persists (· = Token.identifier name) k False .something i i (j ()) := by
        refine place (fun a => down (step rfl (Persists.atMark _ (fun _ => ?_) .inside))) .inside
        extract_lets -underBinder n
        have hn : ∀ hasArgs, Persists anything k False .nothing i i (n hasArgs) := by
          intro hasArgs
          dsimp -zeta only [n]
          extract_lets -underBinder q
          have hq : ∀ args, Persists anything k False .nothing i i (q args) := fun args =>
            since fun _ => (eatMark rfl).bind fun _ => (eatMark rfl).bind fun _ => pure _
          clear_value q
          exact either ((arguments hg).down.forgive.bind hq) (hq [])
        clear_value n
        exact either (continuesLine hn .inside) (hn false)
      clear_value j
      refine either (ifNextOpening (pure _) hj.forgive (by rintro _ rfl; rfl) ?_) hj.forgive
      intro s a s' hs hF hlength h
      obtain ⟨hends, hlt⟩ := hj.length_lt rfl hs hF h
      exact ⟨hends.isEof_of_length (by omega), id⟩
  | _ =>
      exact pure _

theorem enumDecl
    (isSealed : Bool) (a : Span) :
    Persists F (k + 1) b .something i i (Grammar.enumDecl g a isSealed) := by
  refine (expectWord rfl).pay (fun _ => ?_) rfl
  refine forgive (l := .closure)
    (expectName.inside (fun name => permits.inside (fun _ => ?_) rfl) rfl)
  refine (implementedTypes hg).inside (fun _ => (eatMark rfl).inside (fun _ => ?_) rfl) rfl
  refine (repeatRead (l := .nothing) (fun acc => enumRound hg name acc) []).inside (fun _ => ?_) rfl
  refine (members hg name .classLike).inside (fun ms => ?_) rfl
  exact (closeBlock _ _).paid fun _ => since fun _ => pure _

theorem recordDecl :
    Persists F (k + 1) b .something i i (Grammar.recordDecl g) := by
  refine place (fun a => (expectWord rfl).pay (fun _ => ?_) rfl) (.moving rfl)
  refine forgive (l := .closure) (expectName.inside (fun name => ?_) rfl)
  refine optionalTypeParams hg fun typeParams => (params hg).down.inside (fun components => ?_) rfl
  have hrest : Persists anything k b .closure i i
      (do
        let interfaces ← Grammar.implementedTypes g
        let _ ← Grammar.eatMark .colon
        let ms ← Grammar.members g name .record
        Grammar.closeBlock "record" a
        return Stmt.recordDecl ⟨name, typeParams, components, interfaces, ms.methods,
          ← spanSince a⟩) :=
    (implementedTypes hg).inside (fun _ => closedMembers hg _ _ _ _ fun _ _ => pure _) rfl
  split
  · exact invalid _ _
  · exact hrest

theorem sealedDecl :
    Persists F (k + 1) b .something i i (Grammar.sealedDecl g) := by
  refine place (fun a => (expectWord rfl).pay (fun _ => ?_) rfl) (.moving rfl)
  refine forgive (l := .something) (front (fun t _ => ?_) (.moving rfl))
  cases t with
  | keyword w =>
      cases w with
      | classKw | abstractKw =>
          exact (classDecl hg true a).down
      | interfaceKw =>
          exact (interfaceDecl hg true a).down
      | enumKw =>
          exact (enumDecl hg true a).down
      | _ =>
          exact failExpecting _
  | _ =>
      exact failExpecting _

end Persists

namespace Persists

variable {α β : Type} {F : Token → Prop} {k i m : Nat} {b : Prop} {l : Load} {g : Reader}

/-- Whether a parenthesis is opened. -/
theorem eatOpening
    {f : Bool → Parse β} (hyes : Persists anything k False l (i + 1) m (f true))
    (hno : Persists F k False l i m (f false)) :
    Persists F k False l i m (Grammar.eatMark .leftParen >>= f) := by
  have hsplit : (Grammar.eatMark .leftParen >>= f) =
      (do if ← Grammar.eatMark .leftParen then f true else f false) := by
    congr
    funext x
    cases x <;> rfl
  rw [hsplit]
  refine ifEaten (.mark _) rfl ?_ hno False.elim
  exact (consume rfl (fun h => by cases h) .opening False.elim).bind fun _ => hyes

theorem receivedChannel
    (e : Expr) :
    Persists F k b .nothing i i (Grammar.receivedChannel e) := by
  unfold Grammar.receivedChannel
  split
  · exact pure _
  · exact failInvalid _ _

variable (hg : g.Persists k)
include hg

/-! ### Simple statements -/

/-- The declaration of a variable; its way of binding stands in front. -/
theorem variableDecl
    {t : Token} (ht : t.isLast = true) :
    Persists (· = t) (k + 1) b .something i i (Grammar.variableDecl g) := by
  refine place (fun a => current (fun u => step ht ?_) (.moving rfl)) (.moving rfl)
  refine expectName.forgive.bind fun name => (optionalType hg).bind fun _ => ?_
  refine (initializer hg).bind fun _ => either (fails fun _ _ _ h => ?_) (since fun _ => pure _)
  cases h

theorem shortDecl :
    Persists F (k + 1) b .something i i (Grammar.shortDecl g) := by
  refine place (fun a => expectName.pay (fun name => ?_) rfl) (.moving rfl)
  refine (expectMark rfl).forgive.bind fun _ => hg.expression.forgive.bind fun _ => ?_
  exact since fun _ => pure _

/-- What may follow an expression that is a statement: a value that is assigned. -/
theorem assigned
    (a : Span) (e : Expr) :
    Persists anything k b .nothing i i
      (do
        match assignOp? (← Grammar.current) with
        | some op =>
          unless e.isAssignable do MonadExcept.throw (ParseError.ofCause .assignmentTarget e.span)
          Grammar.advance
          let value ← g.expression
          return Stmt.assignment op e value (← spanSince a)
        | none => return Stmt.expression e (← spanSince a)) := by
  refine frontOr (fun t _ _ => ?_) (fun _ => since fun _ => pure _) fun _ _ _ t hopens _ => ?_
  · cases t with
    | mark m =>
        cases m with
        | equal | plusEqual | minusEqual | starEqual | slashEqual =>
            refine either (forgive (down (stepOn rfl (l := .something) ?_ rfl))) ?_
            · exact hg.expression.paid fun _ => since fun _ => pure _
            · exact fails fun _ _ _ h => by cases h
        | _ =>
            exact since fun _ => pure _
    | _ =>
        exact since fun _ => pure _
  · generalize t.current.1 = u at hopens
    cases u with
    | mark m =>
        cases m <;> first | rfl | cases hopens
    | _ =>
        rfl

/-- Its first expression is read from the whole text, the value assigned from what it leaves. -/
theorem expressionStatement
    {k' : Nat} (hexpression : Persists anything k' b .something i i g.expression)
    (hk : k' ≤ k + 1) :
    Persists F k' b .something i i (Grammar.expressionStatement g) :=
  place (fun a => hexpression.anywhere.payUpTo (fun e => assigned hg a e) rfl hk) (.moving rfl)

theorem returnStatement :
    Persists F (k + 1) b .something i i (Grammar.returnStatement g) := by
  refine place (fun a => (expectWord rfl).pay (fun _ => ?_) rfl) (.moving rfl)
  refine frontOr (fun t _ ht => continuesLine (fun sameLine => ?_) (.at ht)) (fun _ => ?_)
    fun _ _ _ t _ hline => ?_
  · refine otherwise (hg.expression.anywhere.forgive.map.bind fun _ => ?_) (since fun _ => pure _)
    exact since fun _ => pure _
  · exact unused (fun _ => rfl) (since fun _ => pure _)
  · have hcontinues : Grammar.continuesLine t = .ok false t := by
      rw [← hline]
      rfl
    rw [ok_bind hcontinues, ok_bind hcontinues]
    simp only [Bool.not_false, Bool.or_true, Bool.true_or]

theorem throwStatement :
    Persists F (k + 1) b .something i i (Grammar.throwStatement g) := by
  refine place (fun a => (expectWord rfl).pay (fun _ => ?_) rfl) (.moving rfl)
  exact hg.expression.forgive.bind fun _ => since fun _ => pure _

theorem deferStatement :
    Persists F (k + 1) b .something i i (Grammar.deferStatement g) := by
  refine place (fun a => (expectWord rfl).pay (fun _ => ?_) rfl) (.moving rfl)
  exact hg.expression.forgive.bind fun _ => since fun _ => pure _

/-! ### Branches and loops -/

/-- A block that is closed behind it. -/
theorem closedBlock
    {f : List Stmt → Parse β} (terminators : List Keyword)
    (hf : ∀ body, Persists anything k b .closure i i (f body)) :
    Persists F k b .closure i i
      (do
        let _ ← Grammar.eatMark .colon
        let body ← Grammar.block g terminators
        f body) :=
  (eatMark rfl).inside (fun _ => (block hg terminators).inside hf rfl) rfl

/-- A block behind a word that may be missing. -/
theorem optionalBlock
    {f : Option (List Stmt) → Parse β} {terminators : List Keyword} {w : Keyword}
    (hf : ∀ x, Persists anything k b .closure i i (f x)) :
    Persists F k b .closure i i
      (do
        let x ←
          if ← Grammar.eatWord w then
            let _ ← Grammar.eatMark .colon
            some <$> Grammar.block g terminators
          else Pure.pure none
        f x) := by
  refine eatWord.inside (fun _ => either ?_ (hf none)) rfl
  exact (eatMark rfl).inside (fun _ => (block hg _).map.inside hf rfl) rfl

theorem branchStatement :
    Persists F (k + 1) b .something i i (Grammar.branchStatement g) := by
  refine place (fun a => (expectWord rfl).pay (fun _ => ?_) rfl) (.moving rfl)
  refine forgive (l := .closure) (hg.expression.inside (fun test => ?_) rfl)
  refine closedBlock hg _ fun body => ?_
  refine (repeatRead (l := .nothing) (fun elifs => ?_) []).inside (fun elifs => ?_) rfl
  · refine ifEaten (.word .elifKw) rfl ?_ (pure _) False.elim
    refine forgive (down (step rfl (hg.expression.forgive.bind fun _ => ?_)))
    exact (eatMark rfl).bind fun _ => (block hg _).bind fun _ => pure _
  · refine optionalBlock hg fun otherwise => ?_
    exact (closeBlock _ _).paid fun _ => since fun _ => pure _

theorem forStatement :
    Persists F (k + 1) b .something i i (Grammar.forStatement g) := by
  refine place (fun a => (expectWord rfl).pay (fun _ => ?_) rfl) (.moving rfl)
  refine forgive (l := .closure) (expectName.inside (fun first => ?_) rfl)
  refine (repeatRead (l := .nothing) (fun names => ?_) _).inside (fun names => ?_) rfl
  · refine ifEaten (.mark .comma) rfl ?_ (pure _) False.elim
    exact forgive (down (stepOn rfl (l := .something) (expectName.paid fun _ => pure _) rfl))
  · refine (expectWord rfl).inside (fun _ => hg.expression.inside (fun iterable => ?_) rfl) rfl
    refine eatWord.inside (fun hasFilter => ?_) rfl
    extract_lets -underBinder j
    have hj : ∀ filter, Persists anything k b .closure i i (j filter) := fun filter =>
      closedBlock hg _ fun body => (closeBlock _ _).paid fun _ => since fun _ => pure _
    clear_value j
    exact either (hg.expression.forgive.map.inside hj rfl) (hj none)

/-! ### Choices -/

theorem selectArm :
    Persists F k False .nothing i i (Grammar.selectArm g) := by
  refine eatWord.bind fun _ => either (hg.expression.forgive.bind fun _ => pure _) ?_
  refine eatWord.bind fun bound => ?_
  extract_lets -underBinder j
  have hj : ∀ bound, Persists anything k False .nothing i i (j bound) := by
    intro bound
    dsimp -zeta only [j]
    extract_lets -underBinder n
    have hn : ∀ binding, Persists anything k False .nothing i i (n binding) := fun binding =>
      hg.expression.forgive.bind fun e => (receivedChannel e).bind fun _ => pure _
    clear_value n
    refine either (expectName.forgive.bind fun name => ?_) (hn none)
    exact (expectMark rfl).forgive.bind fun _ => hn (some name)
  clear_value j
  exact either (hj true) (eatWord.bind hj)

theorem selectStatement :
    Persists F (k + 1) b .something i i (Grammar.selectStatement g) := by
  refine place (fun a => (expectWord rfl).pay (fun _ => ?_) rfl) (.moving rfl)
  refine forgive (l := .closure) ((eatMark rfl).inside (fun _ => ?_) rfl)
  refine (repeatRead (l := .nothing) (fun cases => ?_) []).inside (fun cases => ?_) rfl
  · refine ifWord (place (fun _ => ?_) .inside) (pure _) False.elim
    refine forgive (down (step rfl ((selectArm hg).bind fun arm => ?_)))
    exact (eatMark rfl).bind fun _ => (block hg _).bind fun _ => since fun _ => pure _
  · exact (closeBlock _ _).paid fun _ => since fun _ => pure _

/-! ### Failures -/

omit hg in
/-- Whether the token behind the one in front stands on its line.  The second text begins on another
one. -/
theorem nextOnLine
    {f : Bool → Parse β} (hf : ∀ x, Persists F k b l i m (f x)) (hF : ∀ t, F t → t.isEof = false) :
    Persists F k b l i m
      (do
        let here ← currentSpan
        let next ← Grammar.peek 1
        let place ← Grammar.peekSpan 1
        f (!next.isEof && place.line == here.line)) := by
  have hlook (s : State) :
      (do
        let here ← currentSpan
        let next ← Grammar.peek 1
        let place ← Grammar.peekSpan 1
        return !next.isEof && place.line == here.line : Parse Bool) s =
      .ok (!((s.rest[1]?.map Prod.fst).getD Token.eof).isEof &&
        ((s.rest[1]?.map Prod.snd).getD ((s.rest.getLast?.map Prod.snd).getD default)).line ==
          s.current.2.line) s := by
    rw [ok_bind (show currentSpan s = .ok s.current.2 s from rfl), ok_bind (peek_ok 1 s),
      ok_bind (peekSpan_ok 1 s)]
    rfl
  have hsplit : (do
        let here ← currentSpan
        let next ← Grammar.peek 1
        let place ← Grammar.peekSpan 1
        f (!next.isEof && place.line == here.line)) =
      ((do
        let here ← currentSpan
        let next ← Grammar.peek 1
        let place ← Grammar.peekSpan 1
        return !next.isEof && place.line == here.line) >>= f) := by
    simp only [bind_assoc, pure_bind]
  rw [hsplit]
  refine look (c := id) hlook (fun x y h => congrArg f h) (fun j hj s t hst hF' _ => ?_) hf
  have hcurrent := hst.current_eq (hF _ hF')
  obtain ⟨u, hs, ht⟩ | ⟨hs, ht, hlength⟩ := hst.second (hF _ hF')
  · rw [hs, ht, hcurrent]
    rfl
  · rw [hs, ht, hcurrent]
    obtain ⟨hfirst, -⟩ | hfresh := hj.seam
    · rw [hfirst]
      rfl
    · have hline := hfresh.later _ (hst.current_mem (hF _ hF'))
      have hne : (j.first.2.line == s.current.2.line) = false := by
        rw [beq_eq_false_iff_ne]
        omega
      simp [hne, Token.isEof]

/-- The type of a catch clause, behind a colon. -/
theorem catchType
    {f : Option TypeExpr → Parse β} (parens : Bool)
    (hf : ∀ x, Persists anything k False .nothing i m (f x)) :
    Persists F k False .nothing i m
      (do
        if ← Grammar.atMark .colon then
          let colon ← currentSpan
          let sameLine := !(← Grammar.peek 1).isEof && (← Grammar.peekSpan 1).line == colon.line
          if parens || sameLine then
            Grammar.advance
            let type ← some <$> g.type
            f type
          else f none
        else f none) := by
  refine ifMark ?_ (hf none).anywhere False.elim
  have hinner (sameLine : Bool) : Persists (· = .mark .colon) k False .nothing i m
      (if parens || sameLine then do
        Grammar.advance
        let type ← some <$> g.type
        f type
      else f none) :=
    either (forgive (l := .something) (down (step rfl (hg.type.forgive.map.bind hf))))
      (hf none).anywhere
  exact nextOnLine hinner (by rintro _ rfl; rfl)

theorem catchHeader :
    Persists F k False .nothing i i (Grammar.catchHeader g) := by
  refine Persists.continuesLine (fun _ => either (pure _) ?_) .inside
  refine eatOpening (front (fun t _ => ?_) .inside) (front (fun t _ => ?_) .inside)
  · have hclose (binding : Option String) (type : Option TypeExpr) :
        Persists anything k False .nothing (i + 1) i
          (do Grammar.expectMark .rightParen; return (binding, type)) :=
      expectClosing.forgive.bind fun _ => pure _
    cases t with
    | identifier name =>
        refine forgive (l := .something) (down (step rfl ?_))
        exact catchType hg true (hclose (some name))
    | _ =>
        exact catchType hg true (hclose none)
  · cases t with
    | identifier name =>
        refine forgive (l := .something) (down (step rfl ?_))
        exact catchType hg false fun type => pure (some name, type)
    | _ =>
        exact catchType hg false fun type => pure (none, type)

theorem tryStatement :
    Persists F (k + 1) b .something i i (Grammar.tryStatement g) := by
  refine place (fun a => (expectWord rfl).pay (fun _ => ?_) rfl) (.moving rfl)
  refine forgive (l := .closure) (closedBlock hg _ fun body => ?_)
  refine (repeatRead (l := .nothing) (fun catches => ?_) []).inside (fun catches => ?_) rfl
  · refine ifWord (place (fun _ => ?_) .inside) (pure _) False.elim
    refine forgive (down (step rfl ((catchHeader hg).bind fun header => ?_)))
    exact (eatMark rfl).bind fun _ => (block hg _).bind fun _ => since fun _ => pure _
  · refine optionalBlock hg fun cleanup => either (invalid _ _) ?_
    exact (closeBlock _ _).paid fun _ => since fun _ => pure _

/-! ### Cases -/

omit hg in
/-- A parenthesis that is opened is not closed by itself. -/
theorem not_closes_opening
    (x : Span) :
    ¬ Closes 0 0 [(.mark .leftParen, x)] := by
  intro h
  have hright := h 1 [(.mark .rightParen, x), (.mark .fatArrow, x)] (Nat.le_refl 1)
  cases hright

/-- Whether a name and a colon stand behind the token in front. -/
def State.isNamed (s : State) : Bool :=
  match (s.rest[1]?.map Prod.fst).getD Token.eof with
  | .identifier _ => ((s.rest[2]?.map Prod.fst).getD Token.eof).isMark .colon
  | _ => false

omit hg in
/-- Both readings see whether a name and a colon follow, unless there is nothing else in the first
text. -/
theorem isNamed_eq
    {j : Joint} {s t : State} (hj : j.Clean) (hst : Ahead j s t) (hlength : 3 ≤ s.rest.length) :
    State.isNamed t = State.isNamed s := by
  have hcolon : j.first.1.isMark .colon = false := by
    obtain ⟨hfirst, -⟩ | hfresh := hj.seam
    · rw [hfirst]
      rfl
    · refine Bool.eq_false_iff.mpr fun hmark => ?_
      have hopens := hfresh.opens
      rw [Token.isMark_iff.mp hmark] at hopens
      cases hopens
  cases hst with
  | @mk done xs d d' n n' r r' htext _ _ _ =>
      rcases xs with _ | ⟨x, _ | ⟨⟨y, a⟩, _ | ⟨z, zs⟩⟩⟩
      · exact absurd hlength (by simp)
      · exact absurd hlength (by simp)
      · cases y with
        | identifier name =>
            exact hcolon
        | _ =>
            rfl
      · rfl

omit hg in
/-- Whether a name and a colon stand behind the parenthesis in front. -/
theorem ifNamed
    {f : Bool → Parse β}
    (hf : ∀ x i, Persists (· = .mark .leftParen) k False .something i i (f x)) :
    Persists (· = .mark .leftParen) k False .something i i
      (do
        match ← Grammar.peek 1 with
        | .identifier _ =>
          let next ← Grammar.peek 2
          let x ← Pure.pure (next.isMark .colon)
          f x
        | _ =>
          let x ← Pure.pure false
          f x) := by
  have hread (s : State) :
      (do
        match ← Grammar.peek 1 with
        | .identifier _ =>
          let next ← Grammar.peek 2
          let x ← Pure.pure (next.isMark .colon)
          f x
        | _ =>
          let x ← Pure.pure false
          f x : Parse β) s = f (State.isNamed s) s := by
    rw [ok_bind (peek_ok 1 s), State.isNamed]
    generalize (s.rest[1]?.map Prod.fst).getD Token.eof = u
    cases u with
    | identifier name =>
        dsimp only
        rw [ok_bind (peek_ok 2 s)]
        rfl
    | _ =>
        rfl
  constructor
  · intro s hs hF a s' h
    rw [hread] at h
    exact (hf _ i).spends hs hF h
  · intro j hj s t hst hF hweight a s' h hrefused hend
    rw [hread] at h
    have hs := hst.ends hj
    have hlength : 3 ≤ s.rest.length := by
      obtain ⟨⟨p, x⟩, u, r, hrest, hfront⟩ := hs.rest_eq_cons (hF ▸ rfl)
      rw [hfront] at hF
      cases hF
      obtain ⟨c, hc, hends, -, hcloses, hload, -⟩ := (hf _ 0).spends hs (by rw [hfront]) h
      cases r with
      | cons v r =>
          rw [hrest]
          exact Nat.le_add_left 3 _
      | nil =>
          rw [hrest] at hc
          rcases c with _ | ⟨y, _ | ⟨z, c⟩⟩
          · exact absurd rfl hload
          · rw [List.singleton_append, List.cons.injEq] at hc
            exact absurd (hc.1 ▸ hcloses) (not_closes_opening x)
          · have hpos := hends.length_pos
            have hcount := congrArg List.length hc
            simp only [List.length_append, List.length_cons, List.length_nil] at hcount
            omega
    rw [hread, isNamed_eq hj hst hlength]
    exact (hf _ i).follows hj hst hF hweight h hrefused hend

theorem casePattern :
    Persists F k False .something i i (Grammar.casePattern g) := by
  have hvalues {F : Token → Prop} {i : Nat} : Persists F k False .something i i
      (do
        let values ← Grammar.repeatRead (fun acc => do
          let acc := acc ++ [← g.expression]
          if ← Grammar.eatMark .comma then return Round.again acc else return Round.done acc) []
        return CasePattern.values values) :=
    (repeatRead (fun _ => hg.expression.paid fun _ => more _) []).paid fun _ => pure _
  have htype {i : Nat} : Persists (· = .mark .leftParen) k False .something i i
      (do
        Grammar.advance
        let binding ← Grammar.expectName
        Grammar.expectMark .colon
        let type ← g.type
        Grammar.expectMark .rightParen
        return (CasePattern.type binding type : CasePattern Expr)) := by
    refine (consume rfl (fun h => by cases h) .opening False.elim).paid fun _ => ?_
    refine expectName.forgive.bind fun _ => (expectMark rfl).forgive.bind fun _ => ?_
    exact hg.type.forgive.bind fun _ => expectClosing.forgive.bind fun _ => pure _
  refine ifMark (ifNamed (f := fun isType => if isType then _ else _) fun x i => ?_) hvalues
    False.elim
  cases x with
  | true =>
      exact htype
  | false =>
      exact hvalues

theorem switchStatement :
    Persists F (k + 1) b .something i i (Grammar.switchStatement g) := by
  refine place (fun a => (expectWord rfl).pay (fun _ => ?_) rfl) (.moving rfl)
  refine forgive (l := .closure) (hg.expression.inside (fun subject => ?_) rfl)
  refine (eatMark rfl).inside (fun _ => ?_) rfl
  refine (repeatRead (l := .nothing) (fun parts => ?_) _).inside (fun parts => ?_) rfl
  · refine ifWord (place (fun _ => ?_) .inside)
      (ifEaten (.word .defaultKw) rfl ?_ (pure _) False.elim) False.elim
    · refine forgive (down (step rfl ((casePattern hg).forgive.bind fun pattern => ?_)))
      exact (eatMark rfl).bind fun _ => (block hg _).bind fun _ => since fun _ => pure _
    · refine forgive (down (step rfl ((eatMark rfl).bind fun _ => ?_)))
      exact (block hg _).bind fun _ => pure _
  · exact (closeBlock _ _).paid fun _ => since fun _ => pure _

/-! ### Imports -/

omit hg in
theorem expectWord_ok
    {w : Keyword} {s s' : State} {a : Unit} (h : Grammar.expectWord w s = .ok a s') :
    s.current.1 = .keyword w ∧ s' = s.advance := by
  obtain ⟨r, s₁, hr, hrest⟩ := ok_of_bind h
  by_cases hs : s.current.1 = .keyword w
  · rw [(Eats.word w).yes s hs] at hr
    cases hr
    cases hrest
    exact ⟨hs, rfl⟩
  · rw [(Eats.word w).no s hs] at hr
    cases hr
    cases hrest

omit hg in
theorem expectName_ok
    {s s' : State} {name : String} (h : Grammar.expectName s = .ok name s') :
    s.current.1 = .identifier name ∧ s' = s.advance := by
  rw [Grammar.expectName, ok_bind (show Grammar.current s = .ok s.current.1 s from rfl)] at h
  generalize hu : s.current.1 = u at h
  cases u with
  | identifier name' =>
      cases h
      exact ⟨rfl, rfl⟩
  | _ =>
      cases h

omit hg in
theorem expectWord_of_front
    {w : Keyword} {s : State} (h : s.current.1 = .keyword w) :
    Grammar.expectWord w s = .ok () s.advance := by
  rw [Grammar.expectWord, ok_bind ((Eats.word w).yes s h)]
  rfl

omit hg in
theorem expectName_of_front
    {s : State} {name : String} (h : s.current.1 = .identifier name) :
    Grammar.expectName s = .ok name s.advance := by
  rw [Grammar.expectName, ok_bind (show Grammar.current s = .ok s.current.1 s from rfl), h]
  rfl

omit hg in
/-- Behind the name of a module, the second text does not begin with a word that gives it another
one. -/
theorem importName
    {f : String → Token → Parse β} (hf : ∀ name t, Persists (· = t) k b .nothing i i (f name t))
    (hseam : ∀ name (t : State), t.current.1 ≠ .identifier "as" →
      f name t.current.1 t = f name .eof t) :
    Persists F (k + 1) b .something i i
      (do
        Grammar.expectWord .importKw
        let name ← Grammar.expectName
        let t ← Grammar.current
        f name t) := by
  constructor
  · intro s hs hF a s' h
    obtain ⟨_, s₁, hword, h⟩ := ok_of_bind h
    obtain ⟨name, s₂, hname, h⟩ := ok_of_bind h
    have hfirst := (expectWord (F := anything) (k := k + 1) (b := b) (i := i) rfl).spends hs trivial
      hword
    have hsecond :=
      (expectName (F := anything) (k := k) (b := b) (i := i)).spends hfirst.ends trivial hname
    have hthird := (hf name s₂.current.1).spends hsecond.ends rfl h
    exact hfirst.trans (hsecond.trans hthird .inl (.inl (Nat.le_refl k)) (.inl rfl)) .inl
      (.inr ⟨rfl, Nat.le_refl _⟩) (.inl rfl)
  · intro j hj s t hst hF hweight a s' h hrefused hend
    obtain ⟨_, s₁, hword, h⟩ := ok_of_bind h
    obtain ⟨hword', rfl⟩ := expectWord_ok hword
    obtain ⟨name, s₂, hname, h⟩ := ok_of_bind h
    obtain ⟨hname', rfl⟩ := expectName_ok hname
    have hfront : s.current.1.isEof = false := hword' ▸ rfl
    have hfront' : s.advance.current.1.isEof = false := hname' ▸ rfl
    have hst₁ := hst.advance hfront
    have hst₂ := hst₁.advance hfront'
    have hends := ((hst.ends hj).advance hfront).advance hfront'
    have hread : (do
        Grammar.expectWord .importKw
        let name ← Grammar.expectName
        let t ← Grammar.current
        f name t : Parse β) t =
        f name t.advance.advance.current.1 t.advance.advance := by
      have hwordBehind := expectWord_of_front ((hst.current_eq hfront).symm ▸ hword')
      have hnameBehind := expectName_of_front ((hst₁.current_eq hfront').symm ▸ hname')
      rw [ok_bind hwordBehind, ok_bind hnameBehind]
      rfl
    have hsame : f name t.advance.advance.current.1 t.advance.advance =
        f name s.advance.advance.current.1 t.advance.advance := by
      by_cases hinside : j.Fresh → s.advance.advance.current.1.isEof = false
      · rw [hst₂.current_of_inside hj hinside]
      · obtain ⟨hfresh, hlast⟩ := Classical.not_imp.mp hinside
        have heof := Bool.of_not_eq_false hlast
        obtain ⟨-, hrest, -⟩ := hst₂.seam hj heof
        have hcurrent : t.advance.advance.current = j.first := by
          rw [State.current, hrest]
          rfl
        have hnamed := hfresh.named (hst.import_last hj hword' hname' heof)
        rw [hseam name _ (hcurrent ▸ hnamed), Token.isEof_iff.mp heof]
    have hfirst := (expectWord (F := anything) (k := k) (b := b) (i := i) rfl).spends (hst.ends hj)
      trivial hword
    have hsecond :=
      (expectName (F := anything) (k := k) (b := b) (i := i)).spends hfirst.ends trivial hname
    have hlt := hfirst.weight_lt rfl
    have hle := hsecond.weight_le
    rw [hread, hsame]
    refine (hf name s.advance.advance.current.1).follows hj hst₂ rfl (by omega) h ?_ hend
    rw [hrefused, State.advance_refused, State.advance_refused]

omit hg in
theorem importStatement :
    Persists F (k + 1) b .something i i Grammar.importStatement := by
  refine place (fun a => importName (fun name t => ?_) fun name t ht => ?_) (.moving rfl)
  · cases t with
    | identifier word =>
        split
        · refine forgive (l := .something)
            (down (step rfl (expectName.forgive.map.bind fun _ => ?_)))
          exact since fun _ => pure _
        · exact since fun _ => pure _
    | _ =>
        exact since fun _ => pure _
  · generalize t.current.1 = u at ht
    cases u with
    | identifier word =>
        dsimp -zeta only
        split
        · next heq =>
            exact absurd heq ht
        · rfl
    | _ =>
        rfl

/-! ### Headers of loops -/

omit hg in
theorem loopTest_apply
    (s : State) :
    Grammar.loopTest g s =
      if s.joinsLine = false ∨ s.current.1.isMark .colon then .ok none s
      else match g.expression s with
        | .ok e s₁ =>
          if s₁.current.1.isMark .colon then .ok (some e) s₁
          else .ok none { s₁ with rest := s.rest, last := s.last }
        | .error _ s₁ => .ok none { s₁ with rest := s.rest, last := s.last } := by
  rw [Grammar.loopTest, ok_bind (show Grammar.continuesLine s = .ok s.joinsLine s from rfl)]
  cases hline : s.joinsLine with
  | false =>
      rfl
  | true =>
      rw [if_neg (by simp), ok_bind (show Grammar.atMark .colon s = .ok _ s from rfl)]
      cases hcolon : s.current.1.isMark .colon with
      | true =>
          rfl
      | false =>
          rw [if_neg (by simp), if_neg (by simp), tryRead_apply]
          cases hx : g.expression s with
          | error e s₁ =>
              rw [error_bind hx]
          | ok e s₁ =>
              rw [ok_bind hx, ok_bind (show Grammar.atMark .colon s₁ = .ok _ s₁ from rfl)]
              dsimp only
              cases s₁.current.1.isMark .colon <;> rfl

variable (hg' : g.Alongside k g)
include hg'

omit hg in
/-- An attempt to read an expression is accounted for, whether it succeeds or fails. -/
theorem expression_grows
    {s : State} (hs : s.Ends) (hwithin : s.Within k) :
    s.Grows (endState (g.expression s)) := by
  obtain ⟨hafter, -, n, hrefused, -⟩ :=
    Nests.expression.reached hg' (hs.whole hwithin) hwithin.weight
  exact ⟨hafter.size, by omega⟩

theorem loopTest_spent
    {s s' : State} {x : Option Expr} (hs : s.Ends) (h : Grammar.loopTest g s = .ok x s') :
    Spent k False .nothing i i s s' := by
  have hgrows := expression_grows hg' hs
  rw [loopTest_apply] at h
  split at h
  · cases h
    exact .refl hs
  · cases hexpr : g.expression s with
    | error e s₁ =>
        rw [hexpr] at h hgrows
        cases h
        exact .stay hs rfl fun hw => ⟨(hgrows hw).size, (hgrows hw).refused⟩
    | ok e s₁ =>
        have hspent := (hg.expression (b := False) (i := i)).spends hs trivial hexpr
        rw [hexpr] at h hgrows
        dsimp only at h
        split at h
        · cases h
          exact hspent.weaken (Nat.le_refl k) id (.inr (.inl rfl))
        · cases h
          exact .stay hs rfl fun hw => ⟨(hgrows hw).size, (hgrows hw).refused⟩

/-- Where the attempt to read the header of a loop fails, it fails with the second text behind as
well: what stands there is read as the body, and would have been read as the header, too. -/
theorem loopTest
    {f : Option Expr → Parse β} (hf : ∀ x, Persists anything k b .closure i m (f x))
    (hbody : ∀ ⦃s s' : State⦄ ⦃a : β⦄, s.Ends → s.Within k → s.current.1.begins = true →
      f none s = .ok a s' → ∃ x s₁, g.statement s = .ok x s₁ ∧ s₁.refused ≤ s'.refused) :
    Persists F k b .closure i m (Grammar.loopTest g >>= f) where
  spends s hs _ a s' h := by
    obtain ⟨x, s₁, hx, hrest⟩ := ok_of_bind h
    have hfirst := loopTest_spent (i := i) hg hg' hs hx
    exact hfirst.trans ((hf x).spends hfirst.ends trivial hrest) (fun _ => .inr rfl)
      (.inl (Nat.le_refl k)) (.inr rfl)
  follows j hj s t hst _ hweight a s' h hrefused hend := by
    obtain ⟨x, s₁, hx, hrest⟩ := ok_of_bind h
    have hs := hst.ends hj
    have hfirst := loopTest_spent (i := i) hg hg' hs hx
    have hsecond := (hf x).spends hfirst.ends trivial hrest
    have hwithin := hst.within hweight
    have hwithin' := hfirst.within hwithin (.inl (Nat.le_refl k))
    have hle := (hfirst.grows hwithin).refused
    have hle' := (hsecond.grows hwithin').refused
    have hinside := hst.inside_of_hasEnd hj (hfirst.hasEnd_of_hasEnd hsecond.hasEnd)
    have hcurrent := hst.current_eq hinside
    have hline : t.joinsLine = s.joinsLine := by
      rw [State.joinsLine, State.joinsLine, hcurrent, hst.last_eq]
    have hboth : ∃ t₁, Grammar.loopTest g t = .ok x t₁ ∧ Ahead j s₁ t₁ := by
      rw [loopTest_apply] at hx ⊢
      rw [hline, hcurrent]
      split at hx
      · next hnone =>
          cases hx
          exact ⟨t, if_pos hnone, hst⟩
      · next hsome =>
          rw [if_neg hsome]
          cases hexpr : g.expression s with
          | ok e s₂ =>
              rw [hexpr] at hx
              have hexpr' := hg.expression (b := True) (i := 0)
              have hgrows := (hexpr'.spends hs trivial hexpr).grows hwithin
              have hsame : s₂.refused = s₁.refused := by
                dsimp only at hx
                split at hx <;> cases hx <;> rfl
              have hle₂ := hgrows.refused
              obtain ⟨t₂, ht₂, hst₂⟩ := hexpr'.follows hj hst trivial hweight hexpr (by omega)
                fun _ => trivial
              rw [ht₂]
              dsimp only at hx ⊢
              rw [hst₂.isMark_eq hj rfl]
              split at hx
              · next hcolon =>
                  cases hx
                  exact ⟨t₂, if_pos hcolon, hst₂⟩
              · next hcolon =>
                  cases hx
                  exact ⟨_, if_neg hcolon, hst.back hst₂.depth_le hgrows.size hst₂.size_le⟩
          | error e s₂ =>
              rw [hexpr] at hx
              cases hx
              have hback : { s₂ with rest := s.rest, last := s.last } = s := by
                obtain ⟨hafter, -, n, hrefused₂, hdepth⟩ :=
                  Nests.expression.reached hg' (hs.whole hwithin) hweight
                have hsize := hafter.size
                rw [hexpr] at hrefused₂ hdepth hsize
                dsimp only [endState] at hrefused₂ hdepth hsize hle'
                have hn : n = 0 := by omega
                subst hn
                rw [Nat.add_zero] at hrefused₂ hdepth
                rw [hdepth, hsize, hrefused₂]
              rw [hback] at hrest hle' ⊢
              cases hbegins : s.current.1.begins with
              | true =>
                  obtain ⟨y, s₃, hread, hle₃⟩ := hbody hs hwithin hbegins hrest
                  have hge₃ := ((hg.statement (b := False) (i := 0)).spends hs trivial hread).grows
                    hwithin
                  obtain ⟨e', s₄, hok⟩ := hg.tries hj hst hweight hbegins hread
                    (by have := hge₃.refused; omega)
                  rw [hexpr] at hok
                  cases hok
              | false =>
                  have hfront := congrArg Prod.fst hcurrent
                  obtain ⟨e', ht⟩ | hlt := hg.rejects hbegins hfront hst.depth_le
                  · rw [ht]
                    exact ⟨t, rfl, hst⟩
                  · rw [hexpr] at hlt
                    exact absurd (congrArg State.refused hback) (Nat.ne_of_gt hlt)
    obtain ⟨t₁, ht₁, hst₁⟩ := hboth
    obtain ⟨t', ht', hst'⟩ := (hf x).follows hj hst₁ trivial hwithin'.weight hrest (by omega) hend
    exact ⟨t', by rw [ok_bind ht₁, ht'], hst'⟩

omit hg hg' in
theorem block_apply
    (terminators : List Keyword) (s : State) :
    Grammar.block g terminators s = repeatBounded (fun acc => do
      if ← Grammar.atEof then return Round.done acc
      if ← Grammar.atAnyWord terminators then return Round.done acc
      if ← Grammar.eatMark .semicolon then return Round.again acc
      return Round.again (acc ++ [← g.statement])) (s.size + 1) [] s :=
  rfl

omit hg' in
/-- A body that begins like an expression begins with a statement. -/
theorem block_reads
    {s s' : State} {body : List Stmt} (hs : s.Ends) (hwithin : s.Within k)
    (hbegins : s.current.1.begins = true) (h : Grammar.block g [.endKw] s = .ok body s') :
    ∃ x s₁, g.statement s = .ok x s₁ ∧ s₁.refused ≤ s'.refused := by
  rw [block_apply] at h
  obtain ⟨r, s₁, hr, hrest⟩ := repeatBounded_ok h
  have hround := (blockRound (F := anything) (i := 0) hg [.endKw] []).spends hs trivial hr
  have hfront (u : Token) (hu : u.begins = false) : s.current.1 ≠ u := by
    rintro rfl
    rw [hbegins] at hu
    cases hu
  have heof : Grammar.atEof s = .ok false s := by
    rw [← Bool.eq_false_iff.mpr fun h => hfront .eof rfl (Token.isEof_iff.mp h)]
    rfl
  have hend : Grammar.atAnyWord [.endKw] s = .ok false s := by
    have hword : s.current.1.isKeyword .endKw = false :=
      Bool.eq_false_iff.mpr fun h => hfront _ rfl (Token.isKeyword_iff.mp h)
    show EStateM.Result.ok ([Keyword.endKw].any s.current.1.isKeyword) s = _
    rw [List.any_cons, hword]
    rfl
  rw [ok_bind heof, if_neg Bool.false_ne_true, ok_bind hend, if_neg Bool.false_ne_true,
    ok_bind ((Eats.mark .semicolon).no s (hfront _ rfl)), if_neg Bool.false_ne_true] at hr
  obtain ⟨x, s₂, hread, hdone⟩ := ok_of_bind hr
  cases hdone
  refine ⟨x, s₁, hread, ?_⟩
  obtain ⟨hdone, -⟩ | ⟨acc, -, hrest⟩ := hrest
  · cases hdone
  · have hspent := repeatBounded_spent (fun acc => blockRound (i := 0) hg [.endKw] acc) _
      hround.ends hrest
    exact (hspent.grows (hround.within hwithin (.inl (Nat.le_refl k)))).refused

theorem loopStatement :
    Persists F (k + 1) b .something i i (Grammar.loopStatement g) := by
  refine place (fun a => (expectWord rfl).pay (fun _ => ?_) rfl) (.moving rfl)
  refine forgive (l := .closure) (loopTest hg hg' (fun test => closedBlock hg _ fun body => ?_) ?_)
  · exact (closeBlock _ _).paid fun _ => since fun _ => pure _
  · intro s s' x hs hwithin hbegins h
    have hcolon : s.current.1 ≠ .mark .colon := by
      intro hcolon
      rw [hcolon] at hbegins
      cases hbegins
    rw [ok_bind ((Eats.mark .colon).no s hcolon)] at h
    obtain ⟨body, s₁, hbody, hrest⟩ := ok_of_bind h
    obtain ⟨y, s₂, hread, hle⟩ := block_reads hg hs hwithin hbegins hbody
    have hblock := (block (F := anything) (i := 0) hg [.endKw]).spends hs trivial hbody
    have hclose : Persists anything k b .closure 0 0
        (do
          Grammar.closeBlock "loop" a
          return Stmt.loop none body (← spanSince a)) :=
      (closeBlock _ _).paid fun _ => since fun _ => pure _
    have hgrows := (hclose.spends hblock.ends trivial hrest).grows
      (hblock.within hwithin (.inl (Nat.le_refl k)))
    exact ⟨y, s₂, hread, Nat.le_trans hle hgrows.refused⟩

/-! ### All statements -/

theorem statementHere
    {k' : Nat} (hexpression : Persists anything k' b .something i i g.expression)
    (hk : k' ≤ k + 1) :
    Persists F k' b .something i i (Grammar.statementHere g) := by
  have hother {F : Token → Prop} : Persists F k' b .something i i (Grammar.expressionStatement g) :=
    expressionStatement hg hexpression hk
  have hless {F : Token → Prop} {p : Parse Stmt} (hp : Persists F (k + 1) b .something i i p) :
      Persists F k' b .something i i p :=
    hp.weaken (fun _ => id) hk id (.inl rfl)
  refine place (fun a => front (fun t _ => ?_) (.moving rfl)) (.moving rfl)
  cases t with
  | keyword w =>
      cases w with
      | letKw | varKw | constKw | finalKw =>
          exact hless (variableDecl hg rfl)
      | defKw =>
          exact hless ((functionDecl hg _).paid fun _ => pure _)
      | classKw | abstractKw =>
          exact hless (classDecl hg false a)
      | interfaceKw =>
          exact hless (interfaceDecl hg false a)
      | enumKw =>
          exact hless (enumDecl hg false a)
      | recordKw =>
          exact hless (recordDecl hg)
      | sealedKw =>
          exact hless (sealedDecl hg)
      | publicKw | privateKw | protectedKw | staticKw =>
          exact hless (step rfl hg.statementHere.forgive)
      | ifKw =>
          exact hless (branchStatement hg)
      | forKw =>
          exact hless (forStatement hg)
      | loopKw =>
          exact hless (loopStatement hg hg')
      | breakKw | continueKw =>
          exact hless (step rfl (pure _))
      | returnKw =>
          exact hless (returnStatement hg)
      | tryKw =>
          exact hless (tryStatement hg)
      | throwKw =>
          exact hless (throwStatement hg)
      | deferKw =>
          exact hless (deferStatement hg)
      | selectKw =>
          exact hless (selectStatement hg)
      | switchKw =>
          exact hless (switchStatement hg)
      | importKw =>
          exact hless importStatement
      | _ =>
          exact hother
  | identifier name =>
      exact ifNext (hless (shortDecl hg)) hother rfl (by rintro _ rfl; rfl)
  | _ =>
      exact hother

end Persists
end Grammar
end ScriptEngine
