import ScriptEngine.Builtin.Globals
import ScriptEngine.Proofs.Evaluation.Calls

/-!
# What builtins are composed of

Each builtin is shown to be composed of the operations of `Composed`, so it keeps every property
that these preserve.  Builtins run code of the program only through the engine; the changes they
make themselves are calm, except that `startThread` spawns a thread.
-/

namespace ScriptEngine

namespace Composed

variable {E : Engine} {r : Role} {α : Type}

/-! ### Callbacks -/

@[grind ←]
theorem callFor
    (callee item : Value) (i : Nat) :
    Composed E r (Builtin.callFor E callee item i) := by
  unfold Builtin.callFor
  grind

@[grind ←]
theorem mapItems
    (callee : Value) (items : List Value) :
    Composed E r (Builtin.mapItems E callee items) := by
  unfold Builtin.mapItems
  grind

@[grind ←]
theorem filterItems
    (callee : Value) (items : List Value) :
    Composed E r (Builtin.filterItems E callee items) := by
  unfold Builtin.filterItems
  grind

@[grind ←]
theorem visitItems
    (callee : Value) (items : List Value) :
    Composed E r (Builtin.visitItems E callee items) := by
  unfold Builtin.visitItems
  grind

@[grind ←]
theorem findItem
    (callee : Value) (wanted : Bool) (items : List Value) :
    Composed E r (Builtin.findItem E callee wanted items) := by
  unfold Builtin.findItem
  grind

/-! ### Arrays -/

@[grind ←]
theorem compareItems
    (comparator : Option Value) (a b : Value) :
    Composed E r (Builtin.compareItems E comparator a b) := by
  unfold Builtin.compareItems
  grind

@[grind ←]
theorem mergeItems
    {order : Value → Value → Eval Ordering} (merged left right : List Value)
    (horder : ∀ a b, Composed E r (order a b)) :
    Composed E r (Builtin.mergeItems order merged left right) := by
  fun_induction Builtin.mergeItems order merged left right <;> grind

@[grind ←]
theorem sortItems
    {order : Value → Value → Eval Ordering} (items : List Value)
    (horder : ∀ a b, Composed E r (order a b)) :
    Composed E r (Builtin.sortItems order items) := by
  fun_induction Builtin.sortItems order items <;> grind

@[grind ←]
theorem separatorText
    (args : List Value) :
    Composed E r (Builtin.separatorText E args) := by
  unfold Builtin.separatorText
  grind

@[grind ←]
theorem traverseArray
    (id : Nat) (name : String) (args : List Value) :
    Composed E r (Builtin.traverseArray E id name args) := by
  unfold Builtin.traverseArray
  grind

@[grind ←]
theorem callArray
    (id : Nat) (name : String) (args : List Value) :
    Composed E r (Builtin.callArray E id name args) := by
  unfold Builtin.callArray
  refine .bind heap fun h => .bind (ofExcept _) fun answer => ?_
  split
  · exact .pure _
  · refine .bind heap fun h' => .bind (ofExcept _) fun update => ?_
    split
    · grind
    · grind

/-! ### Maps and collections -/

@[grind ←]
theorem mapAnswer
    (a : Builtin.MapAnswer) :
    Composed E r a.toValue := by
  unfold Builtin.MapAnswer.toValue
  grind

@[grind ←]
theorem visitEntries
    (args : List Value) (entries : List (Value × Value)) :
    Composed E r (Builtin.visitEntries E args entries) := by
  unfold Builtin.visitEntries
  grind

@[grind ←]
theorem eraseFromMap
    (id : Nat) (key : Value) :
    Composed E r (Builtin.eraseFromMap id key) := by
  unfold Builtin.eraseFromMap
  grind

@[grind ←]
theorem callMap
    (id : Nat) (name : String) (args : List Value) :
    Composed E r (Builtin.callMap E id name args) := by
  unfold Builtin.callMap
  grind

@[grind ←]
theorem checkElement
    (c : Collection) (key : Option Value) (v : Value) :
    Composed E r (Builtin.checkElement c key v) := by
  unfold Builtin.checkElement
  grind

@[grind ←]
theorem changeItems
    (c : Collection) (f : Array Value → Array Value) :
    Composed E r (Builtin.changeItems c f) := by
  unfold Builtin.changeItems
  grind

@[grind ←]
theorem changeEntries
    (c : Collection) (f : KeyedMap → KeyedMap) :
    Composed E r (Builtin.changeEntries c f) := by
  unfold Builtin.changeEntries
  grind

@[grind ←]
theorem pushItem
    (c : Collection) (v : Value) :
    Composed E r (Builtin.pushItem c v) := by
  unfold Builtin.pushItem
  grind

@[grind ←]
theorem insertEntry
    (c : Collection) (key v : Value) :
    Composed E r (Builtin.insertEntry c key v) := by
  unfold Builtin.insertEntry
  grind

@[grind ←]
theorem fillSequence
    (c : Collection) (args : List Value) :
    Composed E r (Builtin.fillSequence c args) := by
  unfold Builtin.fillSequence
  grind

@[grind ←]
theorem fillMap
    (c : Collection) (args : List Value) :
    Composed E r (Builtin.fillMap c args) := by
  unfold Builtin.fillMap
  grind

@[grind ←]
theorem makeCollection
    (kind : CollectionKind) (typeArgs : List TypeExpr) (args : List Value) :
    Composed E r (Builtin.makeCollection kind typeArgs args) := by
  unfold Builtin.makeCollection
  grind

@[grind ←]
theorem insertItem
    (c : Collection) (args : List Value) :
    Composed E r (Builtin.insertItem c args) := by
  unfold Builtin.insertItem
  grind

@[grind ←]
theorem itemPlace
    (c : Collection) (key : Value) :
    Composed E r (Builtin.itemPlace c key) := by
  unfold Builtin.itemPlace
  grind

@[grind ←]
theorem itemAt
    (c : Collection) (i : Nat) :
    Composed E r (Builtin.itemAt c i) := by
  unfold Builtin.itemAt
  grind

@[grind ←]
theorem removeItem
    (c : Collection) (args : List Value) :
    Composed E r (Builtin.removeItem c args) := by
  unfold Builtin.removeItem
  grind

@[grind ←]
theorem takeItem
    (c : Collection) (i : Nat) :
    Composed E r (Builtin.takeItem c i) := by
  unfold Builtin.takeItem
  grind

@[grind ←]
theorem mapCollection
    (c : Collection) (callee : Value) (items : List Value) :
    Composed E r (Builtin.mapCollection E c callee items) := by
  unfold Builtin.mapCollection
  grind

@[grind ←]
theorem filterCollection
    (c : Collection) (callee : Value) (items : List Value) :
    Composed E r (Builtin.filterCollection E c callee items) := by
  unfold Builtin.filterCollection
  grind

@[grind ←]
theorem traverseSequence
    (c : Collection) (name : String) (args : List Value) :
    Composed E r (Builtin.traverseSequence E c name args) := by
  unfold Builtin.traverseSequence
  grind

@[grind ←]
theorem callSequence
    (c : Collection) (name : String) (args : List Value) :
    Composed E r (Builtin.callSequence E c name args) := by
  unfold Builtin.callSequence
  grind

@[grind ←]
theorem callMapCollection
    (c : Collection) (name : String) (args : List Value) :
    Composed E r (Builtin.callMapCollection E c name args) := by
  unfold Builtin.callMapCollection
  grind

@[grind ←]
theorem callCollection
    (c : Collection) (name : String) (args : List Value) :
    Composed E r (Builtin.callCollection E c name args) := by
  unfold Builtin.callCollection
  grind

/-! ### Threads and channels -/

@[grind ←]
theorem awaitThread
    (id : Nat) :
    Composed E r (Builtin.awaitThread id) := by
  exact .plain (.join id)

@[grind ←]
theorem startThread
    (body : List Stmt) (env : Env) :
    Composed E r (Builtin.startThread body env) := by
  exact .plain (.spawn body env)

@[grind ←]
theorem callThread
    (id : Nat) (name : String) :
    Composed E r (Builtin.callThread id name) := by
  unfold Builtin.callThread
  grind

/-- To wait for a change of channels is calm. -/
theorem awaitHub
    (b : Blocker) (step : Hub Value → Option (α × Hub Value)) :
    Composed E r (Eval.await b fun h =>
      (step h.hub).map fun s => (s.1, { h with hub := s.2 })) := by
  refine .plain (.await fun h a h' hstep => ?_)
  obtain ⟨s, hs, heq⟩ := Option.map_eq_some_iff.mp hstep
  cases heq
  exact Calm.of_eq rfl rfl rfl rfl rfl

@[grind ←]
theorem sendValue
    (id : Nat) (v : Value) :
    Composed E r (Builtin.sendValue id v) := by
  unfold Builtin.sendValue
  refine .bind (awaitHub _ fun u => u.send id v) fun sent => ?_
  grind

@[grind ←]
theorem receiveValue
    (id : Nat) :
    Composed E r (Builtin.receiveValue id) := by
  exact awaitHub _ fun u => u.receive id

@[grind ←]
theorem tryReceiveValue
    (id : Nat) :
    Composed E r (Builtin.tryReceiveValue id) := by
  unfold Builtin.tryReceiveValue
  grind

@[grind ←]
theorem tryArms
    (arms : List Channel.Arm) :
    Composed E r (Builtin.tryArms arms) := by
  unfold Builtin.tryArms
  grind

@[grind ←]
theorem awaitWaker
    (waker : Nat) :
    Composed E r (Builtin.awaitWaker waker) := by
  unfold Builtin.awaitWaker
  refine .plain (.await fun h a h' hstep => ?_)
  split at hstep
  · cases hstep
    exact Calm.of_eq rfl rfl rfl rfl rfl
  · cases hstep

@[grind ←]
theorem awaitArms
    (fuel waker : Nat) (arms : List Channel.Arm) :
    Composed E r (Builtin.awaitArms fuel waker arms) := by
  unfold Builtin.awaitArms
  grind

@[grind ←]
theorem selectArm
    (fuel : Nat) (arms : List Channel.Arm) :
    Composed E r (Builtin.selectArm fuel arms) := by
  unfold Builtin.selectArm
  grind

@[grind ←]
theorem makeChannel
    (typeArgs : List TypeExpr) (args : List Value) :
    Composed E r (Builtin.makeChannel typeArgs args) := by
  unfold Builtin.makeChannel
  grind

@[grind ←]
theorem callChannel
    (id : Nat) (element : Option TypeExpr) (name : String) (args : List Value) :
    Composed E r (Builtin.callChannel id element name args) := by
  unfold Builtin.callChannel
  grind

/-! ### Futures -/

@[grind ←]
theorem settleFuture
    (id : Nat) (s : Settlement) :
    Composed E r (Builtin.settleFuture id s) := by
  unfold Builtin.settleFuture
  grind

@[grind ←]
theorem startAsync
    (args : List Value) :
    Composed E r (Builtin.startAsync args) := by
  unfold Builtin.startAsync
  refine .bind (ofExcept _) fun _ => .bind heap fun _ => .bind (ofExcept _) fun body => ?_
  refine change' fun h => Calm.queue ?_ ?_ ?_
  · simp [Heap.newFuture]
  · simp
  · simp [Heap.newFuture]

@[grind ←]
theorem makePromise
    (args : List Value) :
    Composed E r (Builtin.makePromise E args) := by
  unfold Builtin.makePromise
  refine .bind (ofExcept _) fun _ => .bind heap fun _ => .bind (ofExcept _) fun executor => ?_
  refine .bind (change' fun h => Calm.newFuture h .promise) fun id => .bind ?_ fun _ => .pure _
  refine .diverting ?_ fun e => ?_
  · grind
  · grind

@[grind ←]
theorem makeCompletable
    (args : List Value) :
    Composed E r (Builtin.makeCompletable args) := by
  unfold Builtin.makeCompletable
  grind

@[grind ←]
theorem settledValue
    (s : Settlement) :
    Composed E r (Builtin.settledValue E s) := by
  unfold Builtin.settledValue
  split
  · exact .pure _
  · exact throwValue _
  · exact throwNew _ _
  · exact .pure _

@[grind ←]
theorem awaitFuture
    (id : Nat) :
    Composed E r (Builtin.awaitFuture id) := by
  unfold Builtin.awaitFuture
  refine .plain (.await fun h a h' hstep => ?_)
  split at hstep
  · cases hstep
    exact Calm.refl h
  · cases hstep

@[grind ←]
theorem awaitUntil
    (id time : Nat) :
    Composed E r (Builtin.awaitUntil id time) := by
  unfold Builtin.awaitUntil
  refine .plain (.await fun h a h' hstep => ?_)
  split at hstep
  · cases hstep
    exact Calm.refl h
  · split at hstep
    · cases hstep
      exact Calm.refl h
    · cases hstep

@[grind ←]
theorem chainFuture
    (id : Nat) (step : ChainStep) (callee : Value) :
    Composed E r (Builtin.chainFuture id step callee) := by
  exact change' fun h => Calm.chain h id _ .promise

@[grind ←]
theorem callFuture
    (id : Nat) (kind : FutureKind) (name : String) (args : List Value) :
    Composed E r (Builtin.callFuture E id kind name args) := by
  unfold Builtin.callFuture
  grind

@[grind ←]
theorem continueWith
    (k : Continuation) (settled : Settlement) :
    Composed E r (Builtin.continueWith E k settled) := by
  unfold Builtin.continueWith
  grind

/-! ### Methods and functions -/

@[grind ←]
theorem callString
    (s : String) (name : String) (args : List Value) :
    Composed E r (Builtin.callString s name args) := by
  unfold Builtin.callString
  grind

@[grind ←]
theorem callClass
    (c : ClassDef) (name : String) (args : List Value) :
    Composed E r (Builtin.callClass c name args) := by
  unfold Builtin.callClass
  grind

@[grind ←]
theorem callMethod
    (receiver : Value) (name : String) (args : List Value) :
    Composed E r (Builtin.callMethod E receiver name args) := by
  unfold Builtin.callMethod
  grind

@[grind ←]
theorem writeArgs
    (args : List Value) :
    Composed E r (Builtin.writeArgs E args) := by
  unfold Builtin.writeArgs
  grind

@[grind ←]
theorem printText
    (s : String) :
    Composed E r (Builtin.printText s) := by
  unfold Builtin.printText
  grind

@[grind ←]
theorem sleep
    (args : List Value) :
    Composed E r (Builtin.sleep args) := by
  unfold Builtin.sleep
  refine .bind (ofExcept _) fun _ => .bind heap fun h => .bind (ofExcept _) fun n => ?_
  have hwait (wake : Nat) : Composed E r
      (Eval.await (.time wake) fun h => if wake ≤ h.clock then some (Value.nil, h) else none) := by
    refine .plain (.await fun h' a h'' hstep => ?_)
    split at hstep
    · cases hstep
      exact Calm.refl h'
    · cases hstep
  dsimp only
  split
  · exact .bind (.plain .yield) fun _ => hwait _
  · exact hwait _

@[grind ←]
theorem randomNumber
    (args : List Value) :
    Composed E r (Builtin.randomNumber args) := by
  unfold Builtin.randomNumber
  grind

@[grind ←]
theorem callNative
    (f : Native) (args : List Value) (typeArgs : List TypeExpr) :
    Composed E r (Builtin.callNative E f args typeArgs) := by
  unfold Builtin.callNative
  grind

end Composed
end ScriptEngine
