import ScriptEngine.Proofs.Resets.Reading

/-!
# Changes that overlook what is old

Every operation on the heap that code can cause concerns recent things only, if what it is given is
recent.  So it does the same whether or not the old is forgotten, and the heap stays renewed.
-/

namespace ScriptEngine

section Writing

variable {t : Epoch} {id : Nat} {α : Type}

/-! ### Composition -/

theorem Overlooks.comp
    {f g : Heap → Heap} (hf : Overlooks t f) (hg : Overlooks t g) :
    Overlooks t fun h => g (f h) := by
  intro h hh
  obtain ⟨hsame, hrenewed⟩ := hf h hh
  dsimp only
  rw [hsame]
  exact hg (f h) hrenewed

/-- What a change gives may be turned into something else. -/
theorem Yields.map
    {β : Type} {P : α → Prop} {Q : β → Prop} {f : Heap → α × Heap} (hf : Yields t P f) (g : α → β)
    (hg : ∀ a, P a → Q (g a)) :
    Yields t Q fun h => (g (f h).1, (f h).2) := by
  intro h hh
  obtain ⟨hsame, hrenewed, hp⟩ := hf h hh
  refine ⟨?_, hrenewed, hg _ hp⟩
  dsimp only
  rw [hsame]

/-- The heap may change further after what a change gives. -/
theorem Yields.further
    {P : α → Prop} {f : Heap → α × Heap} {g : α → Heap → Heap} (hf : Yields t P f)
    (hg : ∀ a, P a → Overlooks t (g a)) :
    Yields t P fun h => ((f h).1, g (f h).1 (f h).2) := by
  intro h hh
  obtain ⟨hsame, hrenewed, hp⟩ := hf h hh
  obtain ⟨hsame', hrenewed'⟩ := hg _ hp _ hrenewed
  refine ⟨?_, hrenewed', hp⟩
  dsimp only
  rw [hsame]
  exact congrArg _ hsame'

/-! ### New things -/

namespace Yields

theorem newArray
    {xs : Array Value} (hxs : Recent t xs) :
    Yields t (Recent t) (·.newArray xs) := by
  intro h hh
  refine ⟨?_, { hh with arrays := hh.arrays.push hxs }, hh.arrays.size⟩
  simp [Heap.newArray, Heap.forget, Memory.forget, forgetFirst_push hh.arrays.size]

theorem newMap
    {m : KeyedMap} (hm : Recent t m) :
    Yields t (Recent t) (·.newMap m) := by
  intro h hh
  refine ⟨?_, { hh with maps := hh.maps.push hm }, hh.maps.size⟩
  simp [Heap.newMap, Heap.forget, Memory.forget, forgetFirst_push hh.maps.size]

theorem newObject
    {c : ClassDef} (hc : Recent t c) (typeArgs : List TypeExpr) (constant : Option (String × Nat)) :
    Yields t (Recent t) (·.newObject c typeArgs constant) := by
  intro h hh
  refine ⟨?_, { hh with objects := hh.objects.push recent_assoc_empty }, hh.objects.size, hc⟩
  simp [Heap.newObject, Heap.forget, Memory.forget, forgetFirst_push hh.objects.size]

theorem newRecord
    {c : ClassDef} {components : Assoc Value} (hc : Recent t c) (typeArgs : List TypeExpr)
    (hcomponents : Recent t components) :
    Yields t (Recent t) (·.newRecord c typeArgs components) := by
  intro h hh
  refine ⟨?_, { hh with objects := hh.objects.push hcomponents }, hh.objects.size, hc⟩
  simp [Heap.newRecord, Heap.forget, Memory.forget, forgetFirst_push hh.objects.size]

theorem newCollection
    (kind : CollectionKind) (typeArgs : List TypeExpr) :
    Yields t (Recent t) (·.newCollection kind typeArgs) := by
  have hempty : Recent t (Heap.emptyData kind) := by
    cases kind with
    | map =>
        exact KeyedMap.recent_empty
    | _ =>
        exact recent_array_empty
  intro h hh
  refine ⟨?_, { hh with collections := hh.collections.push hempty }, hh.collections.size⟩
  simp [Heap.newCollection, Heap.forget, Memory.forget, forgetFirst_push hh.collections.size]

theorem newChannel
    (element : Option TypeExpr) (capacity : Option Nat) :
    Yields t (Recent t) (·.newChannel element capacity) := by
  have hempty : Recent t (Channel.ofCapacity capacity : Channel Value) := ⟨recent_nil, nofun⟩
  intro h hh
  refine ⟨?_, { hh with channels := hh.channels.push hempty }, hh.channels.size⟩
  simp [Heap.newChannel, Hub.add, Heap.forget, Memory.forget, Hub.forget, forgetFirst_push hh.channels.size]

theorem newFuture
    (kind : FutureKind) :
    Yields t (t.futures ≤ ·) (·.newFuture kind) := by
  have hempty : Recent t (Future.ofKind kind : Future Continuation) := ⟨recent_pending, recent_nil⟩
  intro h hh
  refine ⟨?_, { hh with futures := hh.futures.push hempty }, hh.futures.size⟩
  simp [Heap.newFuture, Heap.forget, Memory.forget, forgetFirst_push hh.futures.size]

theorem newNumber : Yields t (fun _ => True) Heap.newNumber := by
  exact fun h hh => ⟨rfl, { hh with }, trivial⟩

theorem newStatics : Yields t (t.statics ≤ ·) Heap.newStatics := by
  have hempty : Recent t (default : Statics) := ⟨recent_assoc_empty, recent_nil⟩
  intro h hh
  refine ⟨?_, { hh with statics := hh.statics.push hempty }, hh.statics.size⟩
  simp [Heap.newStatics, Heap.forget, Memory.forget, forgetFirst_push hh.statics.size]

end Yields

/-! ### Changes of what there is -/

namespace Overlooks

theorem refl : Overlooks t fun h => h := fun _ hh => ⟨rfl, hh⟩

theorem note
    (e : Event) :
    Overlooks t (·.note e) := by
  intro h hh
  have hevents : t.events ≤ (h.note e).notes.length := by
    rw [Heap.notes_note]
    exact Nat.le_succ_of_le hh.events
  exact ⟨(Heap.forget_note hh.events e).symm, { hh with events := hevents }⟩

theorem print
    (s : String) :
    Overlooks t fun h => { h with output := h.output ++ s } := by
  exact fun h hh => ⟨rfl, { hh with }⟩

/-- Work is queued. -/
theorem enqueue
    {jobs : List Job} (hjobs : Recent t jobs) :
    Overlooks t fun h => { h with jobs := h.jobs ++ jobs } := by
  exact fun h hh => ⟨rfl, { hh with jobs := recent_append.mpr ⟨hh.jobs, hjobs⟩ }⟩

theorem takeJobs : Overlooks t fun h => { h with jobs := [] } := by
  exact fun h hh => ⟨rfl, { hh with jobs := recent_nil }⟩

theorem putClass
    {c : ClassDef} (hc : Recent t c) :
    Overlooks t fun h =>
      { h with registry := h.registry.put (.cls c), declared := c.name :: h.declared } := by
  refine fun h hh => ⟨?_, { hh with registry := ?_, declared := Nat.le_succ_of_le hh.declared }⟩
  · simp [Heap.forget, Memory.forget, Nat.succ_sub hh.declared]
  · exact ⟨hh.registry.1.insert hc c.name, hh.registry.2.erase c.name⟩

theorem putInterface
    {i : Interface} (hi : Recent t i) :
    Overlooks t fun h =>
      { h with registry := h.registry.put (.interface i), declared := i.name :: h.declared } := by
  refine fun h hh => ⟨?_, { hh with registry := ?_, declared := Nat.le_succ_of_le hh.declared }⟩
  · simp [Heap.forget, Memory.forget, Nat.succ_sub hh.declared]
  · exact ⟨hh.registry.1.erase i.name, hh.registry.2.insert hi i.name⟩

theorem modifyArray
    {f : Array Value → Array Value} (hid : t.arrays ≤ id)
    (hf : ∀ xs, Recent t xs → Recent t (f xs)) :
    Overlooks t (·.modifyArray id f) := by
  intro h hh
  refine ⟨?_, { hh with arrays := hh.arrays.modify hf }⟩
  simp [Heap.modifyArray, Heap.forget, Memory.forget, forgetFirst_modify hid]

theorem modifyMap
    {f : KeyedMap → KeyedMap} (hid : t.maps ≤ id) (hf : ∀ m, Recent t m → Recent t (f m)) :
    Overlooks t (·.modifyMap id f) := by
  intro h hh
  refine ⟨?_, { hh with maps := hh.maps.modify hf }⟩
  simp [Heap.modifyMap, Heap.forget, Memory.forget, forgetFirst_modify hid]

theorem modifyObject
    {f : ObjectState → ObjectState} (hid : t.objects ≤ id)
    (hf : ∀ s, Recent t s → Recent t (f s)) :
    Overlooks t (·.modifyObject id f) := by
  intro h hh
  have hchange (s : Traced ObjectState) (hs : Recent t s) : Recent t (s.change f) := hf s.now hs
  refine ⟨?_, { hh with objects := hh.objects.modify hchange }⟩
  simp [Heap.modifyObject, Heap.forget, Memory.forget, forgetFirst_modify hid]

theorem modifyCollection
    {f : CollectionContents → CollectionContents} (hid : t.collections ≤ id)
    (hf : ∀ s, Recent t s → Recent t (f s)) :
    Overlooks t (·.modifyCollection id f) := by
  intro h hh
  refine ⟨?_, { hh with collections := hh.collections.modify hf }⟩
  simp [Heap.modifyCollection, Heap.forget, Memory.forget, forgetFirst_modify hid]

theorem modifyStatics
    {f : Statics → Statics} (hid : t.statics ≤ id) (hf : ∀ s, Recent t s → Recent t (f s)) :
    Overlooks t (·.modifyStatics id f) := by
  intro h hh
  have hchange (s : Traced Statics) (hs : Recent t s) : Recent t (s.change f) := hf s.now hs
  refine ⟨?_, { hh with statics := hh.statics.modify hchange }⟩
  simp [Heap.modifyStatics, Heap.forget, Memory.forget, forgetFirst_modify hid]

theorem insertInMap
    {k : KeyImage} {key v : Value} (hid : t.maps ≤ id) (hkey : Recent t key) (hv : Recent t v) :
    Overlooks t (·.insertInMap id k key v) := by
  exact modifyMap hid fun m hm => KeyedMap.recent_insert hm hkey hv

theorem setField
    {o : Instance} {v : Value} (ho : Recent t o) (name : String) (hv : Recent t v) :
    Overlooks t (·.setField o name v) := by
  exact modifyObject ho.1 fun s hs => hs.insert hv name

theorem tell
    {o : Instance} (ho : Recent t o) (e : BuildEvent) :
    Overlooks t (·.tell o e) := by
  exact modifyObject ho.1 fun s hs => hs

theorem tellReceiver
    {env : Env} (henv : Recent t env) (e : ClassDef → BuildEvent) :
    Overlooks t (·.tellReceiver env e) := by
  intro h hh
  have hreceiver := Scopes.Renewed.receiver hh.scopes henv
  simp only [Heap.tellReceiver, Heap.scopes_forget, Scopes.receiver_forget henv]
  split
  · next r heq =>
      rw [heq] at hreceiver
      exact tell (hreceiver r rfl).1 _ h hh
  · exact ⟨rfl, hh⟩

theorem beginField
    {env : Env} (henv : Recent t env) (name : String) :
    Overlooks t (·.beginField name env) := by
  exact tellReceiver henv _

theorem fillField
    {o : Instance} {env : Env} {v : Value} (ho : Recent t o) (henv : Recent t env) (name : String)
    (hv : Recent t v) :
    Overlooks t (·.fillField o name env v) := by
  exact (setField ho name hv).comp (tellReceiver henv _)

theorem markBuilt
    {o : Instance} (ho : Recent t o) :
    Overlooks t (·.markBuilt o) := by
  exact modifyObject ho.1 fun s hs => hs

theorem endConstruction
    {o : Instance} (ho : Recent t o) :
    Overlooks t (·.endConstruction o) := by
  exact modifyObject ho.1 fun s hs => hs

theorem setStatic
    {slot : StaticField} (hid : t.statics ≤ id) (name : String) (hslot : Recent t slot) :
    Overlooks t (·.setStatic id name slot) := by
  exact modifyStatics hid fun s hs => ⟨hs.1.insert hslot name, hs.2⟩

theorem fillStatic
    {slot : StaticField} (hid : t.statics ≤ id) (name : String) (hslot : Recent t slot) :
    Overlooks t (·.fillStatic id name slot) := by
  exact modifyStatics hid fun s hs => ⟨hs.1.insert hslot name, hs.2⟩

theorem addConstant
    {v : Value} (hid : t.statics ≤ id) (name : String) (hv : Recent t v) :
    Overlooks t (·.addConstant id name v) := by
  refine modifyStatics hid fun s hs => ⟨hs.1.insert hv name, ?_⟩
  simpa using ⟨hs.2, hv⟩

theorem endDeclaration
    (hid : t.statics ≤ id) :
    Overlooks t (·.endDeclaration id) := by
  exact modifyStatics hid fun s hs => hs

/-- A thread ends. -/
theorem endThread
    {outcome : Outcome} (hid : t.threads ≤ id) (houtcome : Recent t outcome) :
    Overlooks t fun h => { h with threads := h.threads.setIfInBounds id (some outcome) } := by
  intro h hh
  refine ⟨?_, { hh with threads := hh.threads.set (recent_some.mpr houtcome) }⟩
  simp [Heap.forget, Memory.forget, forgetFirst_set hid]

/-- A future changes. -/
theorem setFuture
    {f : Future Continuation} (hid : t.futures ≤ id) (hf : Recent t f) :
    Overlooks t fun h => { h with futures := h.futures.setIfInBounds id f } := by
  intro h hh
  refine ⟨?_, { hh with futures := hh.futures.set hf }⟩
  simp [Heap.forget, Memory.forget, forgetFirst_set hid]

theorem onSettle
    {k : Continuation} (hid : t.futures ≤ id) (hk : Recent t k) :
    Overlooks t (·.onSettle id k) := by
  intro h hh
  have hfuture := hh.future hid
  simp only [Heap.onSettle, Heap.future_forget hid, Future.onSettle]
  split
  · next f s heq =>
      split at heq
      · cases heq
      · cases heq
        refine setFuture hid ?_ h hh
        simpa using ⟨hfuture.1, hfuture.2, hk⟩
  · next f s heq =>
      split at heq
      · cases heq
        exact enqueue (by simpa using ⟨hk, hfuture.1⟩) h hh
      · cases heq

end Overlooks

/-- A future is settled, and its continuations are queued. -/
theorem Yields.settle
    {s : Settlement} (hid : t.futures ≤ id) (hs : Recent t s) :
    Yields t (fun _ => True) (·.settle id s) := by
  intro h hh
  have hfuture := hh.future hid
  simp only [Heap.settle, Heap.future_forget hid]
  cases hsettle : (h.future id).settle? s with
  | none =>
      exact ⟨rfl, hh, trivial⟩
  | some r =>
      obtain ⟨f, ks⟩ := r
      unfold Future.settle? at hsettle
      split at hsettle
      · cases hsettle
      · cases hsettle
        have hjobs : Recent t ((h.future id).waiting.map fun k => Job.continuation k s) :=
          Recent.map_list fun k hk => ⟨hfuture.2 k hk, hs⟩
        have hsettled : Recent t { h.future id with settlement := s, waiting := [] } :=
          recent_future.mpr ⟨hs, recent_nil⟩
        have hboth := (Overlooks.setFuture hid hsettled).comp (.enqueue hjobs) h hh
        exact ⟨congrArg (Prod.mk true) hboth.1, hboth.2, trivial⟩

/-! ### Channels -/

/-- The channels and wakers of a renewed heap. -/
structure Hub.Renewed (t : Epoch) (u : Hub Value) : Prop where
  channels : Beyond t.channels (Recent t) u.channels
  wakers : t.wakers ≤ u.wakers.size

theorem Heap.Renewed.hub
    {h : Heap} (hh : h.Renewed t) :
    h.hub.Renewed t := by
  exact ⟨hh.channels, hh.wakers⟩

theorem Heap.Renewed.withHub
    {h : Heap} {u : Hub Value} (hh : h.Renewed t) (hu : u.Renewed t) :
    Heap.Renewed t { h with hub := u } := by
  exact { hh with channels := hu.channels, wakers := hu.wakers }

namespace Hub

variable {u : Hub Value} {c : Channel Value}

theorem channel_forget
    (hid : t.channels ≤ id) :
    (u.forget t).channel id = u.channel id := by
  exact getD_of_le hid

theorem isWoken_forget
    (hid : t.wakers ≤ id) :
    (u.forget t).isWoken id = u.isWoken id := by
  exact getD_of_le hid

/-- A change of a hub does the same whether or not the old is forgotten. -/
def Overlooked (t : Epoch) (f : Hub Value → Hub Value) : Prop :=
  ∀ u, u.Renewed t → f (u.forget t) = (f u).forget t ∧ (f u).Renewed t

theorem Renewed.channel
    (hu : u.Renewed t) (hid : t.channels ≤ id) :
    Recent t (u.channel id) := by
  exact hu.channels.getD (P := Recent t) hid ⟨recent_nil, nofun⟩

namespace Overlooked

theorem put
    (hid : t.channels ≤ id) (hc : Recent t c) :
    Overlooked t (·.put id c) := by
  intro u hu
  refine ⟨?_, hu.channels.set hc, hu.wakers⟩
  simp [Hub.put, Hub.forget, forgetFirst_set hid]

theorem wake
    {ws : List Nat} (hws : ∀ w ∈ ws, t.wakers ≤ w) :
    Overlooked t (·.wake ws) := by
  intro u hu
  have hfold (wakers : Array Bool) :
      ws.foldl (fun a w => a.setIfInBounds w true) (forgetFirst t.wakers false wakers) =
          forgetFirst t.wakers false (ws.foldl (fun a w => a.setIfInBounds w true) wakers) ∧
        (ws.foldl (fun a w => a.setIfInBounds w true) wakers).size = wakers.size := by
    induction ws generalizing wakers with
    | nil =>
        exact ⟨rfl, rfl⟩
    | cons w ws ih =>
        obtain ⟨hw, hrest⟩ := List.forall_mem_cons.mp hws
        obtain ⟨hsame, hsize⟩ := ih hrest (wakers.setIfInBounds w true)
        rw [List.foldl_cons, List.foldl_cons, ← forgetFirst_set hw, hsame, hsize]
        exact ⟨rfl, Array.size_setIfInBounds⟩
  obtain ⟨hsame, hsize⟩ := hfold u.wakers
  refine ⟨?_, hu.channels, ?_⟩
  · exact congrArg (Hub.mk _) hsame
  · exact hsize ▸ hu.wakers

theorem rest
    (hid : t.wakers ≤ id) :
    Overlooked t (·.rest id) := by
  intro u hu
  refine ⟨?_, hu.channels, ?_⟩
  · simp [Hub.rest, Hub.forget, forgetFirst_set hid]
  · simpa [Hub.rest] using hu.wakers

theorem watch
    {waker : Nat} (hwaker : t.wakers ≤ waker) (hid : t.channels ≤ id) :
    Overlooked t (·.watch waker id) := by
  intro u hu
  have hc := hu.channel hid
  simp only [Hub.watch, channel_forget hid]
  refine put (c := (u.channel id).watch waker) hid ⟨hc.1, fun w hw => ?_⟩ u hu
  rcases List.mem_append.mp hw with hold | hnew
  · exact hc.2 w hold
  · rw [List.mem_singleton.mp hnew]
    exact hwaker

theorem unwatch
    {waker : Nat} (hid : t.channels ≤ id) :
    Overlooked t (·.unwatch waker id) := by
  intro u hu
  have hc := hu.channel hid
  simp only [Hub.unwatch, channel_forget hid]
  refine put (c := (u.channel id).unwatch waker) hid ⟨hc.1, fun w hw => ?_⟩ u hu
  exact hc.2 w (List.mem_of_mem_filter hw)

theorem comp
    {f g : Hub Value → Hub Value} (hf : Overlooked t f) (hg : Overlooked t g) :
    Overlooked t fun u => g (f u) := by
  intro u hu
  obtain ⟨hsame, hrenewed⟩ := hf u hu
  dsimp only
  rw [hsame]
  exact hg (f u) hrenewed

theorem close
    (hid : t.channels ≤ id) :
    Overlooked t (·.close id) := by
  intro u hu
  have hc := hu.channel hid
  simp only [Hub.close, channel_forget hid]
  split
  · exact ⟨rfl, hu⟩
  · exact (put (c := (u.channel id).close) hid hc).comp (wake hc.2) u hu

/-- Each arm of a select is dealt with. -/
theorem foldl
    {f : Hub Value → Channel.Arm → Hub Value} {arms : List Channel.Arm} (harms : Recent t arms)
    (hf : ∀ a, Recent t a → Overlooked t fun u => f u a) :
    Overlooked t fun u => arms.foldl f u := by
  induction arms with
  | nil =>
      exact fun u hu => ⟨rfl, hu⟩
  | cons a arms ih =>
      obtain ⟨ha, hrest⟩ := recent_cons.mp harms
      exact (hf a ha).comp (ih hrest)

end Overlooked

/-- A step on a hub comes to the same whether or not the old is forgotten. -/
def Stepped (t : Epoch) (P : α → Prop) (step : Hub Value → Option (α × Hub Value)) : Prop :=
  ∀ u, u.Renewed t →
    step (u.forget t) = (step u).map (fun r => (r.1, r.2.forget t)) ∧
      ∀ r, step u = some r → P r.1 ∧ r.2.Renewed t

namespace Stepped

/-- A step that is done. -/
theorem done
    {P : α → Prop} {f : Hub Value → Hub Value} {a : α} (hf : Overlooked t f) (ha : P a)
    (hu : u.Renewed t) :
    some (a, f (u.forget t)) = (some (a, f u)).map (fun r => (r.1, r.2.forget t)) ∧
      ∀ r, some (a, f u) = some r → P r.1 ∧ r.2.Renewed t := by
  obtain ⟨hsame, hrenewed⟩ := hf u hu
  refine ⟨?_, ?_⟩
  · rw [hsame]
    rfl
  · rintro _ ⟨⟩
    exact ⟨ha, hrenewed⟩

theorem send
    {v : Value} (hid : t.channels ≤ id) (hv : Recent t v) :
    Stepped t (fun _ => True) (·.send id v) := by
  intro u hu
  have hc := hu.channel hid
  simp only [Hub.send, channel_forget hid, Channel.send]
  split
  · next c heq =>
      split at heq
      · cases heq
      · split at heq
        · cases heq
        · cases heq
          have hqueue : Recent t { u.channel id with queue := (u.channel id).queue ++ [v] } :=
            ⟨by simpa using ⟨hc.1, hv⟩, hc.2⟩
          exact done (P := fun _ => True) ((Overlooked.put hid hqueue).comp (.wake hc.2)) trivial hu
  · exact done (P := fun _ => True) (f := fun u => u) (fun u hu => ⟨rfl, hu⟩) trivial hu
  · exact ⟨rfl, nofun⟩

theorem receive
    (hid : t.channels ≤ id) :
    Stepped t (Recent t) (·.receive id) := by
  intro u hu
  have hc := hu.channel hid
  simp only [Hub.receive, channel_forget hid, Channel.receive]
  split
  · next v c heq =>
      split at heq
      · next first rest hqueue =>
          cases heq
          obtain ⟨hv, hrest⟩ := recent_cons.mp (hqueue ▸ hc.1)
          have hput : Recent t { u.channel id with queue := rest } := ⟨hrest, hc.2⟩
          exact done (Overlooked.put hid hput) (recent_some.mpr hv) hu
      · split at heq
        · cases heq
        · cases heq
  · exact done (f := fun u => u) (fun u hu => ⟨rfl, hu⟩) recent_none hu
  · exact ⟨rfl, nofun⟩

end Stepped

/-- A receiver that does not wait. -/
theorem tryReceive_forget
    (hid : t.channels ≤ id) (hu : u.Renewed t) :
    (u.forget t).tryReceive id = ((u.tryReceive id).1, (u.tryReceive id).2.forget t) ∧
      (u.tryReceive id).2.Renewed t ∧ Recent t (u.tryReceive id).1 := by
  have hc := hu.channel hid
  simp only [Hub.tryReceive, channel_forget hid, Channel.tryReceive]
  cases hqueue : (u.channel id).queue with
  | nil =>
      exact ⟨rfl, hu, recent_none⟩
  | cons v rest =>
      obtain ⟨hv, hrest⟩ := recent_cons.mp (hqueue ▸ hc.1)
      have hput : Recent t { u.channel id with queue := rest } := ⟨hrest, hc.2⟩
      obtain ⟨hsame, hrenewed⟩ := Overlooked.put hid hput u hu
      exact ⟨congrArg (Prod.mk (some v)) hsame, hrenewed, recent_some.mpr hv⟩

/-! ### Selects -/

section Selects

variable {cs : Array (Channel Value)} {a : Channel.Arm}

/-- The channels without the old ones. -/
private abbrev forgetChannels (t : Epoch) (cs : Array (Channel Value)) : Array (Channel Value) :=
  forgetFirst t.channels default cs

theorem isReady_forget
    (ha : Recent t a) :
    a.isReady (forgetChannels t cs) = a.isReady cs := by
  cases a with
  | receive c =>
      rw [Channel.Arm.isReady, Channel.Arm.isReady, getElem?_of_le (recent_receiveArm.mp ha)]
  | closed c =>
      rw [Channel.Arm.isReady, Channel.Arm.isReady, getElem?_of_le (recent_closedArm.mp ha)]

theorem isDead_forget
    (ha : Recent t a) :
    a.isDead (forgetChannels t cs) = a.isDead cs := by
  cases a with
  | receive c =>
      rw [Channel.Arm.isDead, Channel.Arm.isDead, getElem?_of_le (recent_receiveArm.mp ha)]
  | closed c =>
      rfl

/-- What a select comes to, and the channels that it leaves. -/
private structure Fires (t : Epoch) (cs : Array (Channel Value))
    (r r' : Option (Channel.Selected Value × Array (Channel Value))) : Prop where
  same : r' = r.map fun p => (p.1, forgetChannels t p.2)
  recent : ∀ p, r = some p → Recent t p.1 ∧ Beyond t.channels (Recent t) p.2

private theorem fires_fire?
    (hcs : Beyond t.channels (Recent t) cs) (i : Nat) (ha : Recent t a) :
    Fires t cs (Channel.fire? cs i a) (Channel.fire? (forgetChannels t cs) i a) := by
  cases a with
  | closed c =>
      exact ⟨rfl, by rintro _ ⟨⟩; exact ⟨trivial, hcs⟩⟩
  | receive c =>
      rw [Channel.fire?, Channel.fire?, getElem?_of_le (recent_receiveArm.mp ha)]
      cases hc : cs[c]? with
      | none =>
          exact ⟨rfl, nofun⟩
      | some channel =>
          obtain ⟨hqueue, hwatchers⟩ := hcs.holds c channel ha hc
          cases heq : channel.queue with
          | nil =>
              simp only [Option.bind_some, Channel.tryReceive, heq]
              exact ⟨rfl, nofun⟩
          | cons v rest =>
              obtain ⟨hv, hrest⟩ := recent_cons.mp (heq ▸ hqueue)
              simp only [Option.bind_some, Channel.tryReceive, heq, Option.map_some]
              refine ⟨?_, ?_⟩
              · have hset (taken : Channel Value) : forgetChannels t (cs.setIfInBounds c taken) =
                    (forgetChannels t cs).setIfInBounds c taken :=
                  forgetFirst_set (recent_receiveArm.mp ha)
                exact congrArg (fun cs => some (Channel.Selected.received i v, cs)) (hset _).symm
              · rintro _ ⟨⟩
                exact ⟨hv, hcs.set ⟨hrest, hwatchers⟩⟩

private theorem fires_fireFirst?
    {arms : List Channel.Arm} (hcs : Beyond t.channels (Recent t) cs) (first : Nat)
    (harms : Recent t arms) :
    Fires t cs (Channel.fireFirst? cs first arms)
      (Channel.fireFirst? (forgetChannels t cs) first arms) := by
  induction arms generalizing first with
  | nil =>
      exact ⟨rfl, nofun⟩
  | cons a arms ih =>
      obtain ⟨ha, hrest⟩ := recent_cons.mp harms
      rw [Channel.fireFirst?, Channel.fireFirst?, isReady_forget ha]
      split
      · exact fires_fire? hcs first ha
      · exact ih (first + 1) hrest

theorem Stepped.select?
    {arms : List Channel.Arm} (harms : Recent t arms) :
    Stepped t (Recent t) (·.select? arms) := by
  intro u hu
  have hfires : Fires t u.channels (Channel.select? u.channels arms)
      (Channel.select? (forgetChannels t u.channels) arms) := by
    obtain ⟨hsame, hrecent⟩ := fires_fireFirst? hu.channels 0 harms
    have hdead : (arms.all (·.isDead (forgetChannels t u.channels))) =
        arms.all (·.isDead u.channels) := by
      rw [Bool.eq_iff_iff, List.all_eq_true, List.all_eq_true]
      refine forall₂_congr fun a ha => ?_
      rw [isDead_forget (harms a ha)]
    rw [Channel.select?, Channel.select?, hsame, hdead]
    cases hfirst : Channel.fireFirst? u.channels 0 arms with
    | some p =>
        exact ⟨rfl, fun q hq => hrecent q (hfirst.trans hq)⟩
    | none =>
        rw [Option.map_none]
        dsimp only
        split
        · exact ⟨rfl, by rintro _ ⟨⟩; exact ⟨trivial, hu.channels⟩⟩
        · exact ⟨rfl, nofun⟩
  refine ⟨?_, fun r hr => ?_⟩
  · simp only [Hub.select?, Hub.forget, hfires.same, Option.map_map]
    rfl
  · obtain ⟨p, hp, rfl⟩ := Option.map_eq_some_iff.mp hr
    obtain ⟨hselected, hchannels⟩ := hfires.recent p hp
    exact ⟨hselected, hchannels, hu.wakers⟩

end Selects

end Hub

/-! ### Steps on the heap -/

/-- A step that may have to wait comes to the same whether or not the old is forgotten. -/
def Tries (t : Epoch) (P : α → Prop) (step : Heap → Option (α × Heap)) : Prop :=
  ∀ h, h.Renewed t →
    step (h.forget t) = (step h).map (fun r => (r.1, r.2.forget t)) ∧
      ∀ r, step h = some r → P r.1 ∧ r.2.Renewed t

/-- A step on the channels. -/
theorem Tries.hub
    {P : α → Prop} {step : Hub Value → Option (α × Hub Value)} (hstep : Hub.Stepped t P step) :
    Tries t P fun h => (step h.hub).map fun r => (r.1, { h with hub := r.2 }) := by
  intro h hh
  obtain ⟨hsame, hrecent⟩ := hstep h.hub hh.hub
  refine ⟨?_, fun r hr => ?_⟩
  · dsimp only
    rw [Heap.hub_forget, hsame, Option.map_map, Option.map_map]
    rfl
  · obtain ⟨s, hs, rfl⟩ := Option.map_eq_some_iff.mp hr
    obtain ⟨hp, hrenewed⟩ := hrecent s hs
    exact ⟨hp, hh.withHub hrenewed⟩

/-- A look at the heap that may have to wait. -/
theorem Tries.look
    {P : α → Prop} {f : Heap → Option α}
    (hf : ∀ h, h.Renewed t → f (h.forget t) = f h ∧ ∀ a, f h = some a → P a) :
    Tries t P fun h => (f h).map (·, h) := by
  intro h hh
  obtain ⟨hsame, hp⟩ := hf h hh
  refine ⟨?_, fun r hr => ?_⟩
  · dsimp only
    rw [hsame, Option.map_map]
    rfl
  · obtain ⟨a, ha, rfl⟩ := Option.map_eq_some_iff.mp hr
    exact ⟨hp a ha, hh⟩

/-- A change of the channels. -/
theorem Overlooks.hub
    {f : Hub Value → Hub Value} (hf : Hub.Overlooked t f) :
    Overlooks t fun h => { h with hub := f h.hub } := by
  intro h hh
  obtain ⟨hsame, hrenewed⟩ := hf h.hub hh.hub
  refine ⟨?_, hh.withHub hrenewed⟩
  dsimp only
  rw [Heap.hub_forget, hsame]
  rfl

theorem Yields.tryReceive
    (hid : t.channels ≤ id) :
    Yields t (Recent t) fun h =>
      ((h.hub.tryReceive id).1, { h with hub := (h.hub.tryReceive id).2 }) := by
  intro h hh
  obtain ⟨hsame, hrenewed, hv⟩ := Hub.tryReceive_forget hid hh.hub
  refine ⟨?_, hh.withHub hrenewed, hv⟩
  dsimp only
  rw [Heap.hub_forget, hsame]
  rfl

theorem Yields.newWaker :
    Yields t (t.wakers ≤ ·) fun h => (h.hub.newWaker.1, { h with hub := h.hub.newWaker.2 }) := by
  intro h hh
  refine ⟨?_, ?_, hh.wakers⟩
  · simp [Hub.newWaker, Hub.forget, Heap.forget, Memory.forget, forgetFirst_push hh.wakers]
  · refine hh.withHub ⟨hh.channels, ?_⟩
    rw [Hub.newWaker, Array.size_push]
    exact Nat.le_succ_of_le hh.wakers

/-! ### Threads -/

end Writing
end ScriptEngine
