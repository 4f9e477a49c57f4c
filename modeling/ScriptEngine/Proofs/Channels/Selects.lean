import ScriptEngine.Proofs.Channels.Steps

/-!
# Selects that sleep

A select sleeps until its waker is woken.  What it has found out about its arms stays true as long
as that does not happen, with one exception: a channel that was closed but not yet empty when the
select looked may have been drained since then, and draining wakes nobody.

**What is found.** The channel of a receive arm that was not ready is empty, and a closed arm that
was not ready is ready just if its channel has been drained since it was examined.  Sends and
closings change this, but they wake the waker, since it has been on the list of the channel before
the select looked.

So a select that sleeps and has not been woken has a ready arm just if the channel of a closed arm
has been drained; it is never the case that all its arms are dead.
-/

namespace ScriptEngine
namespace Traffic

variable {α : Type}

namespace Event

/-- Whether an event takes the last value out of a channel that is closed. -/
def drains (id : Nat) : Event α → Bool
  | took i _ .closed => i == id
  | _ => false

/-- Whether a select looks at an arm. -/
def examines (k : Nat) : Event α → Bool
  | examined i => i == k
  | _ => false

theorem drains_of_changes
    {e : Event α} {id : Nat}
    (he : e.changes id = false) :
    e.drains id = false := by
  cases e with
  | took i v left =>
      cases left with
      | closed =>
          exact he
      | value | pending =>
          rfl
  | made | sent | refused | ended | missed | closed | began | examined | selected | quiet =>
      rfl

end Event

/-- A closed channel has been drained since a thread last looked at an arm of its select. -/
def Log.DrainedSince (t k id : Nat) : Log α → Prop
  | [] => False
  | (i, e) :: log =>
    if i = t ∧ e.examines k = true then False else e.drains id = true ∨ DrainedSince t k id log

/-! ### What one event changes -/

namespace Change

variable {id : Nat} {e : Event α} {c c' : Channel α}

/-- Only a send fills an empty queue. -/
theorem empty
    (h : Change id e c c')
    (hsend : ∀ v, e ≠ .sent id v) (hempty : c.queue = []) :
    c'.queue = [] := by
  cases h with
  | none | closed =>
      exact hempty
  | made =>
      rfl
  | @sent v he _ _ =>
      exact absurd he (hsend v)
  | took _ hqueue =>
      cases hempty.symm.trans hqueue

/-- A channel is closed and empty since it was so before, or since it has been drained, unless it
has been closed just now. -/
theorem readiness_closed_iff
    (h : Change id e c c')
    (hsend : ∀ v, e ≠ .sent id v) (hclose : e = .closed id → c.closed = true) :
    c'.readiness = .closed ↔ e.drains id = true ∨ c.readiness = .closed := by
  cases h with
  | none he =>
      rw [Event.drains_of_changes he]
      simp [Channel.readiness]
  | made he hempty =>
      subst he hempty
      simp [Channel.ofCapacity, Event.drains, Channel.readiness]
  | @sent v he _ _ =>
      exact absurd he (hsend v)
  | @took v rest he hqueue =>
      have hvalue : c.readiness = .value := by
        simp [Channel.readiness, hqueue]
      subst he
      rw [hvalue]
      cases hleft : Channel.readiness { c with queue := rest } with
      | closed =>
          simp [Event.drains]
      | value | pending =>
          simp [Event.drains]
  | closed he =>
      subst he
      have hsame : c.close = c := by
        rw [Channel.close, ← hclose rfl]
      rw [hsame]
      simp [Event.drains]

end Change

/-! ### What a select has found out -/

/-- What a select has found out about an arm that was not ready. -/
def Found (log : Log α) (t : Nat) (u : Hub α) (k : Nat) : Channel.Arm → Prop
  | .receive id => (u.channel id).queue = []
  | .closed id => (u.channel id).readiness = .closed ↔ log.DrainedSince t k id

/-- Whether an arm may yet become ready by something that wakes the select. -/
def Hopeful (u : Hub α) : Channel.Arm → Prop
  | .receive id => (u.channel id).closed = false
  | .closed _ => True

/-- The number of arms that a select has found not to be ready, if it has found none that is. -/
def Phase.examined (arms : List Channel.Arm) : Phase α → Nat
  | .scanning k [] => k
  | .probing _ | .waiting | .asleep => arms.length
  | _ => 0

/-- Whether a select sleeps or is about to. -/
def Phase.sleeps : Phase α → Bool
  | .waiting | .asleep => true
  | _ => false

/-- A select that has looked at arms has been registered with all their channels. -/
theorem Phase.registered_of_examined
    {phase : Phase α} {arms : List Channel.Arm} {k : Nat}
    (hk : k < phase.examined arms) (a : Channel.Arm) :
    phase.Registered a := by
  cases phase with
  | watching | leaving =>
      cases hk
  | scanning | firing | probing | waiting | asleep =>
      trivial

theorem Phase.registered_of_sleeps
    {phase : Phase α}
    (hsleeps : phase.sleeps = true) (a : Channel.Arm) :
    phase.Registered a := by
  cases phase with
  | watching | leaving =>
      cases hsleeps
  | scanning | firing | probing | waiting | asleep =>
      trivial

/-- What holds of a select as long as its waker has not been woken. -/
structure Attentive (log : Log α) (s : State α) (t w : Nat) (arms : List Channel.Arm)
    (phase : Phase α) : Prop where
  lt : w < s.hub.wakers.size
  apart : ∀ i, i ≠ t → ∀ arms' phase', s.pc i ≠ .selecting w arms' phase'
  exists_channel : ∀ a ∈ arms, s.Exists a.channel
  listed : ∀ a ∈ arms, phase.Registered a → w ∈ (s.channel a.channel).watchers
  found : s.hub.isWoken w = false → ∀ k a, k < phase.examined arms → arms[k]? = some a →
    Found log t s.hub k a
  hopeful : s.hub.isWoken w = false → phase.sleeps = true → ∃ a ∈ arms, Hopeful s.hub a

/-- What a select has found out about an arm is still so after a step that does not wake it. -/
theorem Found.step
    {log : Log α} {s s' : State α} {t i k : Nat} {e : Event α} {a : Channel.Arm}
    (hfound : Found log t s.hub k a) (hstep : Step s i e s')
    (hne : ¬(i = t ∧ e.examines k = true))
    (hsend : ∀ v, e ≠ .sent a.channel v)
    (hclose : e = .closed a.channel → (s.channel a.channel).closed = true) :
    Found ((i, e) :: log) t s'.hub k a := by
  have hchange := hstep.change a.channel
  cases a with
  | receive id =>
      exact hchange.empty hsend hfound
  | closed id =>
      have hiff : (s.channel id).readiness = .closed ↔ log.DrainedSince t k id := hfound
      have hready := hchange.readiness_closed_iff hsend hclose
      rw [Found, Log.DrainedSince, if_neg hne, ← hiff]
      exact hready

/-- Whether a step of another thread wakes a select. -/
theorem Attentive.spared
    {log : Log α} {s s' : State α} {t i w : Nat} {e : Event α} {arms : List Channel.Arm}
    {phase : Phase α} {a : Channel.Arm}
    (h : Attentive log s t w arms phase) (hstep : Step s i e s')
    (hflag : s'.hub.isWoken w = false) (ha : a ∈ arms) (hregistered : phase.Registered a) :
    (∀ v, e ≠ .sent a.channel v) ∧
      (e = .closed a.channel → (s.channel a.channel).closed = true) := by
  have hlisted := h.listed a ha hregistered
  refine ⟨fun v he => ?_, fun he => ?_⟩
  · rw [hstep.effect.woken hlisted h.lt (.inl ⟨v, he⟩)] at hflag
    cases hflag
  · cases hopen : (s.channel a.channel).closed with
    | true =>
        rfl
    | false =>
        rw [hstep.effect.woken hlisted h.lt (.inr ⟨he, hopen⟩)] at hflag
        cases hflag

/-- A step of another thread leaves a select attentive. -/
theorem Attentive.other
    {log : Log α} {s s' : State α} {t i w : Nat} {e : Event α} {arms : List Channel.Arm}
    {phase : Phase α}
    (h : Attentive log s t w arms phase) (hstep : Step s i e s') (hne : i ≠ t) :
    Attentive ((i, e) :: log) s' t w arms phase := by
  have heffect := hstep.effect
  have hother (phase' : Phase α) (arms' : List Channel.Arm) :
      s.pc i ≠ .selecting w arms' phase' := h.apart i hne arms' phase'
  have hstill (hflag : s'.hub.isWoken w = false) : s.hub.isWoken w = false :=
    heffect.not_woken (fun arms' phase' => hother phase' arms') hflag
  refine
    { lt := Nat.lt_of_lt_of_le h.lt heffect.wakers_size_le
      apart := fun j hj arms' phase' hpc => ?_
      exists_channel := fun a ha =>
        Nat.lt_of_lt_of_le (h.exists_channel a ha) heffect.channels_size_le
      listed := fun a ha hregistered =>
        heffect.mem_watchers (fun _ _ _ => hother _ _) (h.listed a ha hregistered)
      found := fun hflag k a hk ha => ?_
      hopeful := fun hflag hsleeps => ?_ }
  · by_cases hji : j = i
    · subst hji
      rcases (hstep.selectStep hpc).new_or_kept with ⟨hw, -⟩ | ⟨phase₀, hbefore⟩
      · exact absurd hw (Nat.ne_of_lt h.lt)
      · exact hother _ _ hbefore
    · exact h.apart j hj arms' phase' ((hstep.selecting_iff hji).mp hpc)
  · have hregistered := Phase.registered_of_examined hk a
    obtain ⟨hsend, hclose⟩ := h.spared hstep hflag (List.mem_of_getElem? ha) hregistered
    exact (h.found (hstill hflag) k a hk ha).step hstep (fun hboth => hne hboth.1) hsend hclose
  · obtain ⟨a, ha, hhope⟩ := h.hopeful (hstill hflag) hsleeps
    refine ⟨a, ha, ?_⟩
    obtain ⟨-, hclose⟩ := h.spared hstep hflag ha (Phase.registered_of_sleeps hsleeps a)
    cases a with
    | receive id =>
        have hopen : (s.channel id).closed = false := hhope
        refine Bool.eq_false_iff.mpr fun hclosed => ?_
        cases hopen.symm.trans (hclose ((hstep.change id).eq_closed hopen hclosed))
    | closed id =>
        trivial

/-! ### The steps of a select -/

/-- An event that neither examines an arm nor drains a channel is no matter of what was found. -/
theorem Found.cons
    {log : Log α} {t k : Nat} {u : Hub α} {e : Event α} {a : Channel.Arm}
    (hfound : Found log t u k a)
    (hexamines : e.examines k = false) (hdrains : ∀ id, e.drains id = false) :
    Found ((t, e) :: log) t u k a := by
  cases a with
  | receive id =>
      exact hfound
  | closed id =>
      have hiff : (u.channel id).readiness = .closed ↔ log.DrainedSince t k id := hfound
      rw [Found, Log.DrainedSince, hexamines, hdrains id, hiff]
      simp

/-- An arm is examined and not ready. -/
theorem Found.examined
    (log : Log α) {t k : Nat} {u : Hub α} {a : Channel.Arm}
    (hexists : a.channel < u.channels.size) (hready : a.isReady u.channels = false) :
    Found ((t, .examined k) :: log) t u k a := by
  cases a with
  | receive id =>
      have hid : id < u.channels.size := hexists
      rw [Hub.isReady_receive hid] at hready
      rw [Found]
      cases hqueue : (u.channel id).queue with
      | nil =>
          rfl
      | cons v rest =>
          simp [Channel.readiness, hqueue] at hready
  | closed id =>
      have hid : id < u.channels.size := hexists
      rw [Hub.isReady_closed hid] at hready
      rw [Found, Log.DrainedSince, if_pos ⟨rfl, beq_self_eq_true k⟩, iff_false]
      simpa using hready

namespace SelectStep

variable {log : Log α} {u u' : Hub α} {t w : Nat} {arms : List Channel.Arm} {e : Event α}
variable {phase phase₀ : Phase α}

/-- A select comes onto the lists of its channels one after another. -/
theorem listed
    (h : SelectStep u w arms (.selecting w arms phase₀) e phase u')
    (hexists : ∀ a ∈ arms, a.channel < u.channels.size)
    (hlisted : ∀ a ∈ arms, phase₀.Registered a → w ∈ (u.channel a.channel).watchers) :
    ∀ a ∈ arms, phase.Registered a → w ∈ (u'.channel a.channel).watchers := by
  intro a ha hregistered
  cases h with
  | @watch a₀ rest =>
      by_cases heq : a.channel = a₀.channel
      · rw [Hub.watch, heq, Hub.channel_put_self (heq ▸ hexists a ha)]
        exact List.mem_append_right _ List.mem_cons_self
      · have hnot : a ∉ a₀ :: rest := by
          refine List.not_mem_cons_of_ne_of_not_mem ?_ hregistered
          rintro rfl
          exact heq rfl
        rw [Hub.watch, Hub.channel_put_of_ne heq]
        exact hlisted a ha hnot
  | scan hall hhub =>
      rcases hhub with rfl | rfl
      · exact hlisted a ha (hall a)
      · exact hlisted a ha (hall a)
  | examine | choose | noneReady | probe | alive | sleep =>
      exact hlisted a ha trivial
  | take | fireClosed | exhaust | unwatch =>
      exact hregistered.elim

/-- A select finds out about one arm after another. -/
theorem found
    (h : SelectStep u w arms (.selecting w arms phase₀) e phase u')
    (hexists : ∀ a ∈ arms, a.channel < u.channels.size)
    (hfound : u.isWoken w = false → ∀ k a, k < phase₀.examined arms → arms[k]? = some a →
      Found log t u k a)
    (hflag : u'.isWoken w = false) :
    ∀ k a, k < phase.examined arms → arms[k]? = some a → Found ((t, e) :: log) t u' k a := by
  intro k a hk ha
  cases h with
  | watch | scan | choose | take | fireClosed | exhaust | unwatch =>
      cases hk
  | @examine k₀ ready a₀ ha₀ =>
      cases hready : a₀.isReady u.channels with
      | true =>
          rw [hready, if_pos rfl] at hk
          cases ready with
          | nil | cons =>
              cases hk
      | false =>
          rw [hready, if_neg Bool.false_ne_true] at hk
          cases ready with
          | cons i ready =>
              cases hk
          | nil =>
              rcases Nat.lt_succ_iff_lt_or_eq.mp hk with hlt | rfl
              · have hexamines : (Event.examined k₀ : Event α).examines k = false :=
                  beq_false_of_ne (Nat.ne_of_gt hlt)
                exact (hfound hflag k a hlt ha).cons hexamines fun _ => rfl
              · cases ha.symm.trans ha₀
                exact .examined log (hexists a (List.mem_of_getElem? ha)) hready
  | noneReady hend =>
      have hlt : k < arms.length := hk
      have hle := List.getElem?_eq_none_iff.mp hend
      exact (hfound hflag k a (Nat.lt_of_lt_of_le hlt hle) ha).cons rfl fun _ => rfl
  | probe | alive | sleep =>
      exact (hfound hflag k a hk ha).cons rfl fun _ => rfl

/-- Who finds an arm that is not dead, and not ready, may hope for it. -/
theorem hopeful
    (h : SelectStep u w arms (.selecting w arms phase₀) e phase u')
    (hexists : ∀ a ∈ arms, a.channel < u.channels.size)
    (hfound : u.isWoken w = false → ∀ k a, k < phase₀.examined arms → arms[k]? = some a →
      Found log t u k a)
    (hhopeful : u.isWoken w = false → phase₀.sleeps = true → ∃ a ∈ arms, Hopeful u a)
    (hflag : u'.isWoken w = false) (hsleeps : phase.sleeps = true) :
    ∃ a ∈ arms, Hopeful u' a := by
  cases h with
  | watch | scan | examine | choose | noneReady | take | fireClosed | probe | exhaust | unwatch =>
      cases hsleeps
  | @alive k a ha halive =>
      have hmem : a ∈ arms := List.mem_of_getElem? ha
      refine ⟨a, hmem, ?_⟩
      cases a with
      | receive id =>
          have hempty : (u.channel id).queue = [] :=
            hfound hflag k _ (List.getElem?_eq_some_iff.mp ha).1 ha
          have hid : id < u.channels.size := hexists _ hmem
          rw [Hub.isDead_receive hid] at halive
          rw [Hopeful]
          cases hclosed : (u.channel id).closed with
          | true =>
              simp [Channel.readiness, hempty, hclosed] at halive
          | false =>
              rfl
      | closed id =>
          trivial
  | sleep =>
      exact hhopeful hflag rfl

end SelectStep

/-- A step of its own leaves a select attentive. -/
theorem Attentive.own
    {log : Log α} {s s' : State α} {t w : Nat} {e : Event α} {arms : List Channel.Arm}
    {phase : Phase α}
    (hall : ∀ {i w arms phase}, s.pc i = .selecting w arms phase →
      Attentive log s i w arms phase)
    (hstep : Step s t e s') (hpc : s'.pc t = .selecting w arms phase) :
    Attentive ((t, e) :: log) s' t w arms phase := by
  have heffect := hstep.effect
  have hselect := hstep.selectStep hpc
  rcases hselect.new_or_kept with ⟨hw, hexists, rfl, hhub⟩ | ⟨phase₀, hbefore⟩
  · refine
      { lt := ?_
        apart := fun i hi arms' phase' hother => ?_
        exists_channel := fun a ha => Nat.lt_of_lt_of_le (hexists a ha) heffect.channels_size_le
        listed := fun a ha hnot => absurd ha hnot
        found := fun _ k a hk => by cases hk
        hopeful := fun _ hsleeps => by cases hsleeps }
    · rw [hhub, hw]
      simp [Hub.newWaker]
    · have hlt := (hall ((hstep.selecting_iff hi).mp hother)).lt
      exact absurd hw (Nat.ne_of_lt hlt)
  · have h := hall hbefore
    rw [hbefore] at hselect
    exact
      { lt := Nat.lt_of_lt_of_le h.lt heffect.wakers_size_le
        apart := fun i hi arms' phase' hother =>
          h.apart i hi arms' phase' ((hstep.selecting_iff hi).mp hother)
        exists_channel := fun a ha =>
          Nat.lt_of_lt_of_le (h.exists_channel a ha) heffect.channels_size_le
        listed := hselect.listed h.exists_channel h.listed
        found := hselect.found h.exists_channel h.found
        hopeful := hselect.hopeful h.exists_channel h.found h.hopeful }

/-- Every select is attentive in every state that can be reached. -/
theorem Run.attentive
    {log : Log α} {s : State α}
    (h : Run log s) {t w : Nat} {arms : List Channel.Arm} {phase : Phase α}
    (hpc : s.pc t = .selecting w arms phase) :
    Attentive log s t w arms phase := by
  induction h generalizing t w arms phase with
  | start =>
      cases hpc
  | @step log s s' i e _ hstep ih =>
      by_cases hne : t = i
      · subst hne
        exact .own ih hstep hpc
      · exact (ih ((hstep.selecting_iff hne).mp hpc)).other hstep (Ne.symm hne)

/-! ### Sleeping -/

/-- A select that sleeps, or is about to, and has not been woken has a ready arm just if the channel
of a closed arm has been drained since the select looked at it; and not all its arms are dead. -/
theorem Run.sleeps
    {log : Log α} {s : State α} {t w : Nat} {arms : List Channel.Arm} {phase : Phase α}
    (h : Run log s) (hpc : s.pc t = .selecting w arms phase)
    (hsleeps : phase.sleeps = true) (hflag : s.hub.isWoken w = false) :
    (∀ k a, arms[k]? = some a → (a.isReady s.hub.channels = true ↔
      ∃ id, a = .closed id ∧ log.DrainedSince t k id)) ∧
      ∃ a ∈ arms, a.isDead s.hub.channels = false := by
  have hattentive := h.attentive hpc
  have hexamined : phase.examined arms = arms.length := by
    cases phase with
    | waiting | asleep =>
        rfl
    | watching | scanning | firing | probing | leaving =>
        cases hsleeps
  have hfound (k : Nat) (a : Channel.Arm) (ha : arms[k]? = some a) : Found log t s.hub k a :=
    hattentive.found hflag k a (hexamined ▸ (List.getElem?_eq_some_iff.mp ha).1) ha
  refine ⟨fun k a ha => ?_, ?_⟩
  · have hexists := hattentive.exists_channel a (List.mem_of_getElem? ha)
    cases a with
    | receive id =>
        have hempty : (s.hub.channel id).queue = [] := hfound k _ ha
        have hid : id < s.hub.channels.size := hexists
        rw [Hub.isReady_receive hid]
        cases hclosed : (s.hub.channel id).closed with
        | true | false =>
            simp [Channel.readiness, hempty, hclosed]
    | closed id =>
        have hdrained : (s.hub.channel id).readiness = .closed ↔ log.DrainedSince t k id :=
          hfound k _ ha
        have hid : id < s.hub.channels.size := hexists
        rw [Hub.isReady_closed hid]
        simpa using hdrained
  · obtain ⟨a, ha, hhope⟩ := hattentive.hopeful hflag hsleeps
    refine ⟨a, ha, ?_⟩
    have hexists := hattentive.exists_channel a ha
    cases a with
    | receive id =>
        have hopen : (s.hub.channel id).closed = false := hhope
        have hid : id < s.hub.channels.size := hexists
        rw [Hub.isDead_receive hid]
        cases hqueue : (s.hub.channel id).queue with
        | nil | cons =>
            simp [Channel.readiness, hopen, hqueue]
    | closed id =>
        rfl

/-- A channel is closed and holds a value when a select looks at its closed arm.  The select goes to
sleep, and sleeps on when the value has been taken and the arm is ready. -/
theorem sleeps_drained :
    ∃ (log : Log Nat) (s : State Nat), Run log s ∧
      s.pc 1 = .selecting 0 [.closed 0] .asleep ∧ s.hub.isWoken 0 = false ∧
      (Channel.Arm.closed 0).isReady s.hub.channels = true := by
  -- thread 0 makes a channel, sends a value and closes the channel
  have h₁ := (Run.start : Run ([] : Log Nat) _).step (.make (t := 0) none rfl)
  have h₂ := h₁.step (.send (t := 0) (v := 7) (.inl rfl) Nat.zero_lt_one rfl
    (.nobody fun i => match i with | 0 | _ + 1 => rfl))
  have h₃ := h₂.step (.close (t := 0) rfl Nat.zero_lt_one rfl)
  -- thread 1 selects
  have h₄ := h₃.step (.begin (t := 1) [.closed 0] rfl
    fun a ha => List.mem_singleton.mp ha ▸ Nat.zero_lt_one)
  have h₅ := h₄.step (.watch (t := 1) rfl)
  have h₆ := h₅.step (.watched (t := 1) rfl)
  have h₇ := h₆.step (.examine (t := 1) rfl rfl)
  have h₈ := h₇.step (.noneReady (t := 1) rfl rfl)
  have h₉ := h₈.step (.alive (t := 1) rfl rfl rfl)
  have h₁₀ := h₉.step (.sleep (t := 1) rfl rfl)
  -- thread 0 takes the value
  have h₁₁ := h₁₀.step (.poll (t := 0) (v := 7) rfl Nat.zero_lt_one rfl
    (.nobody fun i => match i with | 0 | 1 | _ + 2 => rfl))
  obtain ⟨hready, -⟩ := h₁₁.sleeps (t := 1) rfl rfl rfl
  exact ⟨_, _, h₁₁, rfl, rfl, (hready 0 _ rfl).mpr ⟨0, rfl, .inl rfl⟩⟩

end Traffic
end ScriptEngine
