import ScriptEngine.Proofs.Stores.Keeping

/-!
# Scopes that keep their variables

The operations on scopes change nothing of what a variable may hold: a name is bound to a value that
obeys its type, or with a binding that some scope has had before.
-/

namespace ScriptEngine

namespace Scopes

variable {w : World} {s : Scopes} {env : Env} {name : String} {b : Binding}

/-! ### What scopes tell -/

theorem knows_scopeAt
    (hs : Knows w s) (id : ScopeId) :
    Knows w (s.scope id) := by
  refine Knows.array_getD (l := s.items) hs ?_ id
  simp [default, Inhabited.default]

theorem knows_binding?
    (hs : Knows w s) (id : ScopeId) (name : String) :
    Knows w (s.binding? id name) := by
  exact Knows.find? (knows_scope.mp (knows_scopeAt hs id)).1 name

/-- A name is resolved to a binding that a scope has. -/
theorem binding?_of_resolve
    {id : ScopeId} (h : s.resolve name env = some (id, b)) :
    s.binding? id name = some b := by
  induction env with
  | nil =>
      cases h
  | cons i rest ih =>
      rw [resolve] at h
      split at h
      · next found heq =>
          cases h
          exact heq
      · exact ih h

theorem knows_lookup
    (hs : Knows w s) (env : Env) (name : String) :
    Knows w (s.lookup env name) := by
  rw [lookup]
  cases h : s.resolve name env with
  | none =>
      exact knows_none
  | some r =>
      have hb := knows_binding? hs r.1 name
      rw [binding?_of_resolve h] at hb
      exact hb

theorem knows_receiverOf
    (hs : Knows w s) (env : Env) :
    Knows w (s.receiver env) := by
  induction env with
  | nil =>
      exact knows_none
  | cons id rest ih =>
      rw [receiver]
      split
      · next n r ds heq =>
          have hframe := (knows_scope.mp (knows_scopeAt hs id)).2
          rw [heq] at hframe
          exact hframe
      · exact ih

/-- The nearest frame is that of a scope. -/
theorem frame_of_innermost
    {id : ScopeId} {f : Frame} (h : s.innermostFrame env = some (id, f)) :
    (s.scope id).frame = some f := by
  induction env with
  | nil =>
      cases h
  | cons i rest ih =>
      rw [innermostFrame] at h
      split at h
      · next found heq =>
          cases h
          exact heq
      · exact ih h

/-- Entries that are copied over a map hide those that it had. -/
theorem find?_copy
    {α : Type} (entries : List (String × α)) (m : Assoc α) (name : String) :
    (entries.foldr (fun e m => m.insert e.1 e.2) m).find? name =
      (entries.lookup name).or (m.find? name) := by
  induction entries with
  | nil =>
      rfl
  | cons e rest ih =>
      rw [List.foldr_cons, Assoc.find?_insert, ih, List.lookup_cons]
      by_cases heq : e.1 = name
      · simp [heq]
      · simp [heq, beq_false_of_ne (Ne.symm heq)]

/-- A copy of all that is visible binds each name as it is resolved. -/
theorem find?_flatten
    (s : Scopes) (env : Env) (name : String) :
    (s.flatten env).1.find? name = (s.resolve name env).map (·.2) := by
  induction env with
  | nil =>
      rfl
  | cons id rest ih =>
      rw [flatten, find?_copy, ih, resolve, Assoc.find?]
      cases List.lookup name (s.scope id).vars.entries with
      | none =>
          rfl
      | some b =>
          rfl

/-! ### Changes of scopes -/

/-- What a scope is after another one was added. -/
theorem scope_add
    (s : Scopes) (sc : Scope) (id : ScopeId) :
    (s.add sc).2.scope id = if id = s.items.size then sc else s.scope id := by
  exact getD_push _ _ _ _

/-- A further scope has a number of its own. -/
theorem receiverAt?_add
    {id : ScopeId} {r : Receiver} (sc : Scope) (hr : s.receiverAt? id = some r) :
    (s.add sc).2.receiverAt? id = some r := by
  have hne : id ≠ s.items.size := by
    rintro rfl
    rw [receiverAt?, scope, Array.getD_eq_getD_getElem?, Array.getElem?_eq_none (Nat.le_refl _)] at hr
    cases hr
  rw [receiverAt?, scope_add, if_neg hne]
  exact hr

/-- A scope changes and its code runs on what it has run on before. -/
theorem receiverAt?_update
    {id i : ScopeId} {r : Receiver} {f : Scope → Scope} (hr : s.receiverAt? id = some r)
    (hf : (f (s.scope i)).frame.bind (·.receiver) = (s.scope i).frame.bind (·.receiver)) :
    (s.update i f).receiverAt? id = some r := by
  rw [receiverAt?, scope_update]
  split
  · next heq =>
      obtain ⟨rfl, -⟩ := heq
      exact hf.trans hr
  · exact hr

theorem knows_add
    {sc : Scope} (hs : Knows w s) (hsc : Knows w sc) :
    Knows w (s.add sc).2 := by
  exact Knows.push (l := s.items) hs hsc

theorem knows_update
    {f : Scope → Scope} (hs : Knows w s) (id : ScopeId) (hf : ∀ sc, Knows w sc → Knows w (f sc)) :
    Knows w (s.update id f) := by
  exact Knows.modify (l := s.items) hs fun sc _ hsc => hf sc hsc

end Scopes

namespace Quiet

variable {w : World} {h : Heap} {env : Env} {name : String} {b : Binding}

/-- A scope without variables is opened. -/
theorem openScope
    {sc : Scope} (h : Heap) (hvars : sc.vars = ∅) (hsc : Knows w sc.frame) :
    Quiet w h { h with scopes := (h.scopes.add sc).2 } := by
  refine .of_scopes (fun hh => ?_) (fun {j other c} hc => .inl ⟨j, ?_⟩) ?_
  · refine Scopes.knows_add (knows_heap.mp hh).1 (knows_scope.mpr ⟨?_, hsc⟩)
    rw [hvars]
    exact knows_assoc_empty
  · rw [Scopes.binding?, Scopes.scope_add] at hc
    split at hc
    · rw [hvars] at hc
      cases hc
    · exact hc
  · exact fun hr => Scopes.receiverAt?_add sc hr

theorem child
    (w : World) (h : Heap) (env : Env) :
    Quiet w h { h with scopes := (h.scopes.child env).2 } := by
  exact openScope h rfl knows_none

theorem enter
    {receiver : Option Receiver} (h : Heap) (env : Env) (name : String)
    (hreceiver : Knows w receiver) :
    Quiet w h { h with scopes := (h.scopes.enter env name receiver).2 } := by
  exact openScope h rfl hreceiver

/-- A name is bound to a value that obeys its type. -/
theorem bindName
    (h : Heap) (id : ScopeId) (name : String) (hb : Knows w b.value)
    (hobeys : (∃ i, h.scopes.binding? i name = some b) ∨ b.Obeys w) :
    Quiet w h { h with
      scopes := h.scopes.update id fun sc => { sc with vars := sc.vars.insert name b } } := by
  refine .of_scopes (fun hh => ?_) (fun {j other c} hc => ?_) fun hr => Scopes.receiverAt?_update hr rfl
  · refine Scopes.knows_update (knows_heap.mp hh).1 id fun sc hsc => ?_
    rw [knows_scope] at hsc ⊢
    exact ⟨hsc.1.insert hb, hsc.2⟩
  · rw [Scopes.binding?, Scopes.scope_update] at hc
    split at hc
    · rw [Assoc.find?_insert] at hc
      split at hc
      · next heq =>
          subst heq
          cases hc
          exact hobeys
      · exact .inl ⟨j, hc⟩
    · exact .inl ⟨j, hc⟩

theorem define
    (h : Heap) (env : Env) (name : String) (hb : Knows w b.value) (hobeys : b.Obeys w) :
    Quiet w h { h with scopes := h.scopes.define env name b } := by
  cases env with
  | nil =>
      exact .refl w h
  | cons id rest =>
      exact bindName h id name hb (.inr hobeys)

/-- A variable is assigned a value that obeys its type. -/
theorem assign
    {v : Value} (h : Heap) (env : Env) (name : String) (hv : Knows w v)
    (hobeys : ∀ id b, h.scopes.resolve name env = some (id, b) → { b with value := v }.Obeys w) :
    Quiet w h { h with scopes := h.scopes.assign env name v } := by
  rw [Scopes.assign]
  split
  · exact .refl w h
  · next id b heq =>
      exact bindName h id name hv (.inr (hobeys id b heq))

theorem importAs
    (w : World) (h : Heap) (env : Env) (localName module : String) :
    Quiet w h { h with scopes := h.scopes.importAs env localName module } := by
  cases env with
  | nil =>
      exact .refl w h
  | cons id rest =>
      refine .of_scopes (fun hh => ?_) (fun {j other c} hc => .inl ⟨j, ?_⟩) ?_
       
      · exact Scopes.knows_update (knows_heap.mp hh).1 id fun sc hsc => hsc
      · rw [Scopes.binding?, Scopes.importAs, Scopes.scope_update] at hc
        split at hc
        · exact hc
        · exact hc
      · exact fun hr => Scopes.receiverAt?_update hr rfl

/-- The deferred calls of a frame change. -/
theorem setDefers
    {id : ScopeId} {frame : Frame} (w : World) (h : Heap) (ds : List Deferred)
    (hframe : (h.scopes.scope id).frame = some frame) :
    Quiet w h { h with
      scopes := h.scopes.update id fun sc =>
        { sc with frame := some { frame with defers := ds } } } := by
  refine .of_scopes (fun hh => ?_) (fun {j other c} hc => .inl ⟨j, ?_⟩) ?_
  · have hscopes := (knows_heap.mp hh).1
    have hknown := (knows_scope.mp (Scopes.knows_scopeAt hscopes id)).2
    rw [hframe] at hknown
    refine Scopes.knows_update hscopes id fun sc hsc => ?_
    exact knows_scope.mpr ⟨(knows_scope.mp hsc).1, hknown⟩
  · rw [Scopes.binding?, Scopes.scope_update] at hc
    split at hc
    · exact hc
    · exact hc
  · refine fun hr => Scopes.receiverAt?_update hr ?_
    rw [hframe]
    rfl

theorem takeDeferred
    (w : World) (h : Heap) (env : Env) :
    Quiet w h { h with scopes := (h.scopes.takeDeferred env).2 } := by
  cases env with
  | nil =>
      exact .refl w h
  | cons id rest =>
      rw [Scopes.takeDeferred]
      split
      · exact .refl w h
      · next heq =>
          exact setDefers w h [] heq

/-- A copy is made of all that a scope sees. -/
theorem snapshot
    (w : World) (h : Heap) (env : Env) :
    Quiet w h { h with scopes := (h.scopes.snapshot env).2 } := by
  have hflat {name : String} {b : Binding} (hb : (h.scopes.flatten env).1.find? name = some b) :
      ∃ i, h.scopes.binding? i name = some b := by
    rw [Scopes.find?_flatten] at hb
    obtain ⟨⟨i, b'⟩, hresolve, rfl⟩ := Option.map_eq_some_iff.mp hb
    exact ⟨i, Scopes.binding?_of_resolve hresolve⟩
  refine .of_scopes (fun hh => ?_) (fun {j other c} hc => .inl ?_) fun hr =>
    Scopes.receiverAt?_add _ hr
  · have hscopes := (knows_heap.mp hh).1
    refine Scopes.knows_add hscopes (knows_scope.mpr ⟨knows_assoc.mpr fun name b hb => ?_, ?_⟩)
    · obtain ⟨i, hi⟩ := hflat hb
      have hknown := Scopes.knows_binding? hscopes i name
      rw [hi] at hknown
      exact hknown
    · exact Scopes.knows_receiverOf hscopes env
  · rw [Scopes.binding?, Scopes.snapshot, Scopes.scope_add] at hc
    split at hc
    · exact hflat hc
    · exact ⟨j, hc⟩

theorem deferCall
    (w : World) (h : Heap) (env : Env) (d : Deferred) :
    Quiet w h { h with scopes := h.scopes.deferCall env d } := by
  rw [Scopes.deferCall]
  split
  · exact .refl w h
  · next id f heq =>
      exact setDefers w h (f.defers ++ [d]) (Scopes.frame_of_innermost heq)

end Quiet
end ScriptEngine
