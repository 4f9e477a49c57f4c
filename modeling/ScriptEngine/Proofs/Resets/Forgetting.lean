import ScriptEngine.Proofs.Resets.Recent

/-!
# Heaps without what is old

`Heap.forget t` empties every place of a heap that was taken by an epoch.  What has come up since
stays as it is, and so do the numbers that are yet to be given out.

**Renewal.** A heap is `Renewed` since an epoch if whatever has come up since mentions only what has
come up since.  Then nothing in it leads to what is old.

**Overlooking.** A change of the heap overlooks what is old if it does the same whether or not that
is forgotten, and keeps the heap renewed.  This module says so of each operation on the heap
(`Overlooks`, and `Yields` for those that give a value), and that what is recent can be read off a
heap in which the old is forgotten.
-/

namespace ScriptEngine

/-! ### Arrays -/

/-- An array whose first places are emptied. -/
def forgetFirst {α : Type} (n : Nat) (d : α) (xs : Array α) : Array α :=
  xs.mapIdx fun i a => if i < n then d else a

section Arrays

variable {α : Type} {n i : Nat} {d a : α} {xs : Array α}

@[simp] theorem size_forgetFirst : (forgetFirst n d xs).size = xs.size := by
  simp [forgetFirst]

theorem getElem?_forgetFirst
    (i : Nat) :
    (forgetFirst n d xs)[i]? = (xs[i]?).map fun a => if i < n then d else a := by
  simp [forgetFirst]

theorem getElem?_of_le
    (hi : n ≤ i) :
    (forgetFirst n d xs)[i]? = xs[i]? := by
  simp [getElem?_forgetFirst, Nat.not_lt.mpr hi]

theorem getD_of_le
    {e : α} (hi : n ≤ i) :
    (forgetFirst n d xs).getD i e = xs.getD i e := by
  rw [Array.getD_eq_getD_getElem?, Array.getD_eq_getD_getElem?, getElem?_of_le hi]

/-- A new place comes after all that is forgotten. -/
theorem forgetFirst_push
    (hn : n ≤ xs.size) :
    forgetFirst n d (xs.push a) = (forgetFirst n d xs).push a := by
  refine Array.ext_getElem? fun j => ?_
  rw [getElem?_forgetFirst, Array.getElem?_push, Array.getElem?_push, size_forgetFirst]
  by_cases hj : j = xs.size
  · simp [hj, Nat.not_lt.mpr hn]
  · simp only [if_neg hj, getElem?_forgetFirst]

theorem forgetFirst_modify
    {f : α → α} (hi : n ≤ i) :
    forgetFirst n d (xs.modify i f) = (forgetFirst n d xs).modify i f := by
  refine Array.ext_getElem? fun j => ?_
  rw [getElem?_forgetFirst, Array.getElem?_modify, Array.getElem?_modify, getElem?_forgetFirst]
  by_cases hj : i = j
  · simp [← hj, Nat.not_lt.mpr hi, Function.comp_def]
  · simp only [if_neg hj]

theorem forgetFirst_set
    (hi : n ≤ i) :
    forgetFirst n d (xs.setIfInBounds i a) = (forgetFirst n d xs).setIfInBounds i a := by
  refine Array.ext_getElem? fun j => ?_
  rw [getElem?_forgetFirst, Array.getElem?_setIfInBounds, Array.getElem?_setIfInBounds,
    getElem?_forgetFirst, size_forgetFirst]
  by_cases hj : i = j
  · by_cases hlt : i < xs.size
    · simp [← hj, hlt, Nat.not_lt.mpr hi]
    · simp [← hj, hlt]
  · simp only [if_neg hj]

/-- From a place on, everything in an array is of some kind. -/
structure Beyond (n : Nat) (P : α → Prop) (xs : Array α) : Prop where
  size : n ≤ xs.size
  holds : ∀ i a, n ≤ i → xs[i]? = some a → P a

namespace Beyond

variable {P : α → Prop}

theorem of_size (P : α → Prop) (xs : Array α) : Beyond xs.size P xs := by
  refine ⟨Nat.le_refl _, fun i a hi ha => ?_⟩
  rw [Array.getElem?_eq_none hi] at ha
  cases ha

theorem getD
    (hxs : Beyond n P xs) (hi : n ≤ i) (hd : P d) :
    P (xs.getD i d) := by
  rw [Array.getD_eq_getD_getElem?]
  cases ha : xs[i]? with
  | none =>
      exact hd
  | some a =>
      exact hxs.holds i a hi ha

theorem push
    (hxs : Beyond n P xs) (ha : P a) :
    Beyond n P (xs.push a) := by
  refine ⟨?_, fun i b hi hb => ?_⟩
  · rw [Array.size_push]
    exact Nat.le_succ_of_le hxs.size
  · rw [Array.getElem?_push] at hb
    split at hb
    · cases hb
      exact ha
    · exact hxs.holds i b hi hb

theorem modify
    {f : α → α} (hxs : Beyond n P xs) (hf : ∀ a, P a → P (f a)) :
    Beyond n P (xs.modify i f) := by
  refine ⟨?_, fun j b hj hb => ?_⟩
  · rw [Array.size_modify]
    exact hxs.size
  · rw [Array.getElem?_modify] at hb
    split at hb
    · obtain ⟨a, ha, rfl⟩ := Option.map_eq_some_iff.mp hb
      exact hf a (hxs.holds j a hj ha)
    · exact hxs.holds j b hj hb

theorem set
    (hxs : Beyond n P xs) (ha : P a) :
    Beyond n P (xs.setIfInBounds i a) := by
  refine ⟨?_, fun j b hj hb => ?_⟩
  · rw [Array.size_setIfInBounds]
    exact hxs.size
  · rw [Array.getElem?_setIfInBounds] at hb
    split at hb
    · split at hb
      · cases hb
        exact ha
      · cases hb
    · exact hxs.holds j b hj hb

end Beyond

end Arrays

/-! ### Heaps -/

/-- Scopes without the old ones. -/
def Scopes.forget (t : Epoch) (s : Scopes) : Scopes := ⟨forgetFirst t.scopes default s.items⟩

/-- Channels and wakers without the old ones. -/
def Hub.forget (t : Epoch) (u : Hub Value) : Hub Value :=
  ⟨forgetFirst t.channels default u.channels, forgetFirst t.wakers false u.wakers⟩

/-- A memory in which all that is older than an epoch is forgotten. -/
def Memory.forget (t : Epoch) (h : Memory) : Memory where
  scopes := h.scopes.forget t
  arrays := forgetFirst t.arrays #[] h.arrays
  maps := forgetFirst t.maps default h.maps
  objects := forgetFirst t.objects default h.objects
  collections := forgetFirst t.collections default h.collections
  hub := h.hub.forget t
  futures := forgetFirst t.futures default h.futures
  threads := forgetFirst t.threads none h.threads
  statics := forgetFirst t.statics default h.statics
  registry := h.registry
  output := h.output
  clock := h.clock
  fresh := h.fresh
  jobs := h.jobs
  declared := h.declared.take (h.declared.length - t.declared)

/-- What has been noted since an epoch, with memories in which all that is older is forgotten. -/
noncomputable def notedSince (t : Epoch) (past : Trail Note) : Trail Note :=
  .ofList ((past.states.take (past.states.length - t.events)).map fun n =>
    { n with memory := n.memory.forget t })

namespace Heap

/-- A heap in which all that is older than an epoch is forgotten, also by what is noted since. -/
noncomputable def forget (t : Epoch) (h : Heap) : Heap where
  toMemory := h.toMemory.forget t
  past := notedSince t h.past

/-- To note an event and to forget what is old are independent. -/
theorem forget_note
    {t : Epoch} {h : Heap} (hevents : t.events ≤ h.notes.length) (e : Event) :
    (h.note e).forget t = (h.forget t).note e := by
  have hlength : h.past.states.length + 1 - t.events = h.past.states.length - t.events + 1 :=
    Nat.succ_sub hevents
  have hpast : ((h.note e).forget t).past = ((h.forget t).note e).past := by
    ext : 1
    simp [forget, note, notedSince, hlength]
  exact congrArg (Heap.mk (h.toMemory.forget t)) hpast

/-- What has come up since an epoch mentions only what has come up since. -/
structure Renewed (t : Epoch) (h : Heap) : Prop where
  scopes : Beyond t.scopes (Recent t) h.scopes.items
  arrays : Beyond t.arrays (Recent t) h.arrays
  maps : Beyond t.maps (Recent t) h.maps
  objects : Beyond t.objects (Recent t) h.objects
  collections : Beyond t.collections (Recent t) h.collections
  channels : Beyond t.channels (Recent t) h.hub.channels
  wakers : t.wakers ≤ h.hub.wakers.size
  futures : Beyond t.futures (Recent t) h.futures
  threads : Beyond t.threads (Recent t) h.threads
  statics : Beyond t.statics (Recent t) h.statics
  registry : Recent t h.registry
  jobs : Recent t h.jobs
  events : t.events ≤ h.notes.length
  declared : t.declared ≤ h.declared.length

end Heap

/-- A change of the heap overlooks what is older than an epoch. -/
def Overlooks (t : Epoch) (f : Heap → Heap) : Prop :=
  ∀ h, h.Renewed t → f (h.forget t) = (f h).forget t ∧ (f h).Renewed t

/-- So does a change that gives something. -/
def Yields {α : Type} (t : Epoch) (Q : α → Prop) (f : Heap → α × Heap) : Prop :=
  ∀ h, h.Renewed t → f (h.forget t) = ((f h).1, (f h).2.forget t) ∧ (f h).2.Renewed t ∧ Q (f h).1

section Changes

variable {t : Epoch} {h : Heap}

/-! ### Scopes -/

namespace Scopes

variable {s : Scopes} {env : Env} {id : ScopeId}

theorem scope_forget
    (hid : t.scopes ≤ id) :
    (s.forget t).scope id = s.scope id := by
  exact getD_of_le hid

theorem importsOf_forget
    (henv : Recent t env) :
    (s.forget t).importsOf env = s.importsOf env := by
  cases env with
  | nil =>
      rfl
  | cons id rest =>
      exact congrArg Scope.imports (scope_forget (recent_env_cons.mp henv).1)

theorem resolve_forget
    (henv : Recent t env) (name : String) :
    (s.forget t).resolve name env = s.resolve name env := by
  induction env with
  | nil =>
      rfl
  | cons id rest ih =>
      obtain ⟨hid, hrest⟩ := recent_env_cons.mp henv
      rw [resolve, resolve, scope_forget hid, ih hrest]

theorem lookup_forget
    (henv : Recent t env) (name : String) :
    (s.forget t).lookup env name = s.lookup env name := by
  rw [lookup, lookup, resolve_forget henv]

theorem declaredType_forget
    (henv : Recent t env) (name : String) :
    (s.forget t).declaredType env name = s.declaredType env name := by
  rw [declaredType, declaredType, resolve_forget henv]

theorem assignFault?_forget
    (henv : Recent t env) (name : String) :
    (s.forget t).assignFault? env name = s.assignFault? env name := by
  rw [assignFault?, assignFault?, resolve_forget henv]

theorem importedAs_forget
    (henv : Recent t env) (name : String) :
    (s.forget t).importedAs env name = s.importedAs env name := by
  rw [importedAs, importedAs, importsOf_forget henv]

theorem innermostFrame_forget
    (henv : Recent t env) :
    (s.forget t).innermostFrame env = s.innermostFrame env := by
  induction env with
  | nil =>
      rfl
  | cons id rest ih =>
      obtain ⟨hid, hrest⟩ := recent_env_cons.mp henv
      rw [innermostFrame, innermostFrame, scope_forget hid, ih hrest]

theorem receiver_forget
    (henv : Recent t env) :
    (s.forget t).receiver env = s.receiver env := by
  induction env with
  | nil =>
      rfl
  | cons id rest ih =>
      obtain ⟨hid, hrest⟩ := recent_env_cons.mp henv
      rw [receiver, receiver, scope_forget hid, ih hrest]

theorem flatten_forget
    (henv : Recent t env) :
    (s.forget t).flatten env = s.flatten env := by
  induction env with
  | nil =>
      rfl
  | cons id rest ih =>
      obtain ⟨hid, hrest⟩ := recent_env_cons.mp henv
      rw [flatten, flatten, scope_forget hid, ih hrest]

theorem forget_add
    (hs : t.scopes ≤ s.items.size) (sc : Scope) :
    (s.forget t).add sc = ((s.add sc).1, (s.add sc).2.forget t) := by
  simp [add, forget, forgetFirst_push hs]

theorem forget_update
    {f : Scope → Scope} (hid : t.scopes ≤ id) :
    (s.update id f).forget t = (s.forget t).update id f := by
  simp [update, forget, forgetFirst_modify hid]

end Scopes

/-- The scopes of a renewed heap. -/
abbrev Scopes.Renewed (t : Epoch) (s : Scopes) : Prop := Beyond t.scopes (Recent t) s.items

namespace Scopes.Renewed

variable {s : Scopes} {env : Env} {id : ScopeId}

theorem scope
    (hs : s.Renewed t) (hid : t.scopes ≤ id) :
    Recent t (s.scope id) := by
  exact hs.getD hid ⟨recent_assoc_empty, recent_none⟩

theorem resolve
    (hs : s.Renewed t) (henv : Recent t env) (name : String) {b : Binding}
    (hb : s.resolve name env = some (id, b)) :
    t.scopes ≤ id ∧ Recent t b := by
  induction env with
  | nil =>
      cases hb
  | cons i rest ih =>
      obtain ⟨hi, hrest⟩ := recent_env_cons.mp henv
      rw [Scopes.resolve] at hb
      split at hb
      · next found heq =>
          cases hb
          exact ⟨hi, (hs.scope hi).1.find? name b heq⟩
      · exact ih hrest hb

theorem lookup
    (hs : s.Renewed t) (henv : Recent t env) (name : String) :
    Recent t (s.lookup env name) := by
  refine Recent.map_some fun r hr => ?_
  exact (hs.resolve henv name hr).2

theorem innermostFrame
    (hs : s.Renewed t) (henv : Recent t env) {f : Frame}
    (hf : s.innermostFrame env = some (id, f)) :
    t.scopes ≤ id ∧ Recent t f := by
  induction env with
  | nil =>
      cases hf
  | cons i rest ih =>
      obtain ⟨hi, hrest⟩ := recent_env_cons.mp henv
      rw [Scopes.innermostFrame] at hf
      split at hf
      · next found heq =>
          cases hf
          exact ⟨hi, (hs.scope hi).2 f heq⟩
      · exact ih hrest hf

theorem receiver
    (hs : s.Renewed t) (henv : Recent t env) :
    Recent t (s.receiver env) := by
  induction env with
  | nil =>
      exact recent_none
  | cons id rest ih =>
      obtain ⟨hid, hrest⟩ := recent_env_cons.mp henv
      rw [Scopes.receiver]
      split
      · next n r ds heq =>
          exact ((hs.scope hid).2 _ heq).1
      · exact ih hrest

theorem flatten
    (hs : s.Renewed t) (henv : Recent t env) :
    Recent t (s.flatten env).1 := by
  induction env with
  | nil =>
      exact recent_assoc_empty
  | cons id rest ih =>
      obtain ⟨hid, hrest⟩ := recent_env_cons.mp henv
      exact (ih hrest).insertAll (hs.scope hid).1

theorem update
    {f : Scope → Scope} (hs : s.Renewed t) (hf : ∀ sc, Recent t sc → Recent t (f sc)) :
    (s.update id f).Renewed t := by
  have hitems : Beyond t.scopes (Recent t) s.items := hs
  exact hitems.modify hf

theorem add
    {new : Scope} (hs : s.Renewed t) (hnew : Recent t new) :
    (s.add new).2.Renewed t := by
  have hitems : Beyond t.scopes (Recent t) s.items := hs
  exact hitems.push hnew

end Scopes.Renewed

section Scopes

variable {env : Env}

/-- A change of the scopes. -/
theorem Yields.scopes
    {α : Type} {Q : α → Prop} {f : Scopes → α × Scopes}
    (hf : ∀ s, s.Renewed t →
      f (s.forget t) = ((f s).1, (f s).2.forget t) ∧ (f s).2.Renewed t ∧ Q (f s).1) :
    Yields t Q fun h => ((f h.scopes).1, { h with scopes := (f h.scopes).2 }) := by
  intro h hh
  obtain ⟨hsame, hrenewed, hq⟩ := hf h.scopes hh.scopes
  refine ⟨?_, { hh with scopes := hrenewed }, hq⟩
  show ((f (h.scopes.forget t)).1, _) = _
  have hscopes : (f (h.scopes.forget t)).2 = (f h.scopes).2.forget t := congrArg Prod.snd hsame
  rw [hsame]
  exact congrArg (fun s => ((f h.scopes).1, { h.forget t with scopes := s })) hscopes

theorem Overlooks.scopes
    {f : Scopes → Scopes}
    (hf : ∀ s, s.Renewed t → f (s.forget t) = (f s).forget t ∧ (f s).Renewed t) :
    Overlooks t fun h => { h with scopes := f h.scopes } := by
  intro h hh
  obtain ⟨hsame, hrenewed⟩ := hf h.scopes hh.scopes
  refine ⟨?_, { hh with scopes := hrenewed }⟩
  exact congrArg (fun s => { h.forget t with scopes := s }) hsame

/-- A scope is opened. -/
private theorem yields_add
    (new : Scopes → Scope) (hsame : ∀ s : Scopes, new (s.forget t) = new s)
    (hrecent : ∀ s : Scopes, s.Renewed t → Recent t (new s)) (henv : Recent t env) :
    Yields t (Recent t) fun h =>
      ((((h.scopes.add (new h.scopes)).1 :: env : Env),
        { h with scopes := (h.scopes.add (new h.scopes)).2 })) := by
  refine Yields.scopes (f := fun s => (((s.add (new s)).1 :: env : Env), (s.add (new s)).2))
    fun s hs => ⟨?_, ?_, ?_⟩
  · simp only [hsame, Scopes.forget_add hs.size]
  · exact hs.add (hrecent s hs)
  · exact recent_env_cons.mpr ⟨hs.size, henv⟩

theorem Yields.child
    (henv : Recent t env) :
    Yields t (Recent t) fun h =>
      ((h.scopes.child env).1, { h with scopes := (h.scopes.child env).2 }) := by
  refine yields_add (fun s => ⟨∅, s.importsOf env, none⟩) (fun s => ?_) (fun s _ => ?_) henv
  · rw [Scopes.importsOf_forget henv]
  · exact ⟨recent_assoc_empty, recent_none⟩

theorem Yields.enter
    {receiver : Option Receiver} (henv : Recent t env) (name : String)
    (hreceiver : Recent t receiver) :
    Yields t (Recent t) fun h =>
      ((h.scopes.enter env name receiver).1,
        { h with scopes := (h.scopes.enter env name receiver).2 }) := by
  refine yields_add (fun s => ⟨∅, s.importsOf env, some ⟨name, receiver, []⟩⟩) (fun s => ?_)
    (fun s _ => ?_) henv
  · rw [Scopes.importsOf_forget henv]
  · exact ⟨recent_assoc_empty, recent_some.mpr ⟨hreceiver, recent_nil⟩⟩

theorem Yields.root :
    Yields t (Recent t) fun h => (h.scopes.root.1, { h with scopes := h.scopes.root.2 }) := by
  refine yields_add (fun _ => ⟨∅, ∅, some ⟨"<main>", none, []⟩⟩) (fun s => rfl)
    (fun s _ => ?_) recent_env_nil
  exact ⟨recent_assoc_empty, recent_some.mpr ⟨recent_none, recent_nil⟩⟩

/-- A copy is made of all that a scope sees. -/
theorem Scopes.Renewed.snapshot
    {s : Scopes} (hs : s.Renewed t) (henv : Recent t env) :
    (s.forget t).snapshot env = ((s.snapshot env).1, (s.snapshot env).2.forget t) ∧
      (s.snapshot env).2.Renewed t ∧ Recent t (s.snapshot env).1 := by
  refine ⟨?_, ?_, ?_⟩
  · simp only [Scopes.snapshot, Scopes.flatten_forget henv, Scopes.receiver_forget henv,
      Scopes.forget_add hs.size]
  · refine hs.add ⟨hs.flatten henv, recent_some.mpr ⟨?_, recent_nil⟩⟩
    exact hs.receiver henv
  · exact recent_env_cons.mpr ⟨hs.size, recent_env_nil⟩

theorem Overlooks.define
    {b : Binding} (henv : Recent t env) (name : String) (hb : Recent t b) :
    Overlooks t fun h => { h with scopes := h.scopes.define env name b } := by
  refine .scopes (f := fun s => s.define env name b) fun s hs => ?_
  cases env with
  | nil =>
      exact ⟨rfl, hs⟩
  | cons id rest =>
      refine ⟨(Scopes.forget_update (recent_env_cons.mp henv).1).symm, hs.update fun sc hsc => ?_⟩
      exact ⟨hsc.1.insert hb name, hsc.2⟩

theorem Overlooks.assign
    {v : Value} (henv : Recent t env) (name : String) (hv : Recent t v) :
    Overlooks t fun h => { h with scopes := h.scopes.assign env name v } := by
  refine .scopes (f := fun s => s.assign env name v) fun s hs => ?_
  rw [Scopes.assign, Scopes.assign, Scopes.resolve_forget henv]
  split
  · exact ⟨rfl, hs⟩
  · next id b heq =>
      obtain ⟨hid, -⟩ := hs.resolve henv name heq
      refine ⟨(Scopes.forget_update hid).symm, hs.update fun sc hsc => ?_⟩
      exact ⟨hsc.1.insert hv name, hsc.2⟩

theorem Overlooks.importAs
    (henv : Recent t env) (localName module : String) :
    Overlooks t fun h => { h with scopes := h.scopes.importAs env localName module } := by
  refine .scopes (f := fun s => s.importAs env localName module) fun s hs => ?_
  cases env with
  | nil =>
      exact ⟨rfl, hs⟩
  | cons id rest =>
      exact ⟨(Scopes.forget_update (recent_env_cons.mp henv).1).symm, hs.update fun sc hsc => hsc⟩

/-- The deferred calls of a frame change. -/
private theorem setDefers
    {s : Scopes} {id : ScopeId} {f : Frame} {ds : List Deferred} (hs : s.Renewed t)
    (hid : t.scopes ≤ id) (hf : Recent t f) (hds : Recent t ds) :
    (s.forget t).update id (fun sc => { sc with frame := some { f with defers := ds } }) =
        (s.update id fun sc => { sc with frame := some { f with defers := ds } }).forget t ∧
      (s.update id fun sc => { sc with frame := some { f with defers := ds } }).Renewed t := by
  refine ⟨(Scopes.forget_update hid).symm, hs.update fun sc hsc => ?_⟩
  exact ⟨hsc.1, recent_some.mpr ⟨hf.1, hds⟩⟩

theorem Overlooks.deferCall
    {d : Deferred} (henv : Recent t env) (hd : Recent t d) :
    Overlooks t fun h => { h with scopes := h.scopes.deferCall env d } := by
  refine .scopes (f := fun s => s.deferCall env d) fun s hs => ?_
  rw [Scopes.deferCall, Scopes.deferCall, Scopes.innermostFrame_forget henv]
  split
  · exact ⟨rfl, hs⟩
  · next id f heq =>
      obtain ⟨hid, hf⟩ := hs.innermostFrame henv heq
      exact setDefers hs hid hf (by simpa using ⟨hf.2, hd⟩)

theorem Yields.takeDeferred
    (henv : Recent t env) :
    Yields t (Recent t) fun h =>
      ((h.scopes.takeDeferred env).1, { h with scopes := (h.scopes.takeDeferred env).2 }) := by
  refine Yields.scopes (f := fun s => s.takeDeferred env) fun s hs => ?_
  cases env with
  | nil =>
      exact ⟨rfl, hs, recent_nil⟩
  | cons id rest =>
      have hid := (recent_env_cons.mp henv).1
      rw [Scopes.takeDeferred, Scopes.takeDeferred, Scopes.scope_forget hid]
      split
      · exact ⟨rfl, hs, recent_nil⟩
      · next f heq =>
          have hf : Recent t f := (hs.scope hid).2 f heq
          obtain ⟨hsame, hrenewed⟩ := setDefers hs hid hf (recent_nil (α := Deferred))
          exact ⟨congrArg (f.defers, ·) hsame, hrenewed, hf.2⟩

end Scopes

end Changes
end ScriptEngine
