import ScriptEngine.Proofs.Channels.Steps

/-!
# Channels conserve their values

What was taken out of a channel, by whichever operation, and then what is queued is what was sent,
in the order in which it was sent.  So nothing is lost, doubled or overtaken, however the steps of
the threads are mixed.

**Closing.** Nothing is added to a closed channel: a send that begins is refused, and a sender that
sleeps has been notified and will be refused.  Receivers get what is left, and only then learn that
the channel is closed.

**Selects.** Of all that a select does, at most one step changes what a channel holds: it takes one
value out of the channel of the arm that the select reports.

Each fact is proved for one event by `Change` and then, by induction, for a whole run.
-/

namespace ScriptEngine
namespace Traffic

variable {α : Type}

namespace Event

/-- The value that is added to a channel. -/
def sent? (id : Nat) : Event α → Option α
  | sent i v => if i = id then some v else none
  | _ => none

/-- The value that is taken out of a channel. -/
def taken? (id : Nat) : Event α → Option α
  | took i v _ => if i = id then some v else none
  | _ => none

theorem sent?_of_changes
    {e : Event α} {id : Nat}
    (he : e.changes id = false) :
    e.sent? id = none := by
  cases e with
  | sent i v =>
      exact if_neg (beq_eq_false_iff_ne.mp he)
  | made | refused | took | ended | missed | closed | began | examined | selected | quiet =>
      rfl

theorem taken?_of_changes
    {e : Event α} {id : Nat}
    (he : e.changes id = false) :
    e.taken? id = none := by
  cases e with
  | took i v left =>
      exact if_neg (beq_eq_false_iff_ne.mp he)
  | made | sent | refused | ended | missed | closed | began | examined | selected | quiet =>
      rfl

end Event

namespace Log

/-- The values added to a channel, the first one first. -/
def sentTo (id : Nat) (log : Log α) : List α := (log.filterMap fun x => x.2.sent? id).reverse

/-- The values taken out of a channel, the first one first. -/
def takenFrom (id : Nat) (log : Log α) : List α := (log.filterMap fun x => x.2.taken? id).reverse

variable {log later earlier : Log α} {t id : Nat} {e : Event α}

theorem sentTo_cons :
    sentTo id ((t, e) :: log) = sentTo id log ++ (e.sent? id).toList := by
  cases he : e.sent? id with
  | none =>
      simp [sentTo, he]
  | some v =>
      simp [sentTo, he]

theorem takenFrom_cons :
    takenFrom id ((t, e) :: log) = takenFrom id log ++ (e.taken? id).toList := by
  cases he : e.taken? id with
  | none =>
      simp [takenFrom, he]
  | some v =>
      simp [takenFrom, he]

theorem sentTo_append :
    sentTo id (later ++ earlier) = sentTo id earlier ++ sentTo id later := by
  simp [sentTo]

theorem takenFrom_append :
    takenFrom id (later ++ earlier) = takenFrom id earlier ++ takenFrom id later := by
  simp [takenFrom]

end Log

/-! ### One event -/

namespace Change

variable {id t : Nat} {e : Event α} {c c' : Channel α} {log : Log α}

/-- Values go from the end of the queue to its front. -/
theorem conserves
    (h : Change id e c c')
    (hc : log.takenFrom id ++ c.queue = log.sentTo id) :
    Log.takenFrom id ((t, e) :: log) ++ c'.queue = Log.sentTo id ((t, e) :: log) := by
  rw [Log.takenFrom_cons, Log.sentTo_cons, ← hc]
  cases h with
  | none he =>
      rw [Event.sent?_of_changes he, Event.taken?_of_changes he]
      simp
  | made he hempty =>
      subst he hempty
      simp [Event.sent?, Event.taken?, Channel.ofCapacity]
  | sent he _ _ =>
      subst he
      simp [Event.sent?, Event.taken?]
  | took he hqueue =>
      subst he
      simp [Event.sent?, Event.taken?, hqueue]
  | closed he =>
      subst he
      simp [Event.sent?, Event.taken?, Channel.close]

/-- A queue never grows beyond the capacity. -/
theorem fits
    (h : Change id e c c')
    (hc : ∀ n, c.capacity = some n → c.queue.length ≤ n) :
    ∀ n, c'.capacity = some n → c'.queue.length ≤ n := by
  intro n hn
  cases h with
  | none _ | closed _ =>
      exact hc n hn
  | made _ _ =>
      exact Nat.zero_le n
  | @sent v he hopen hroom =>
      have hlt : c.queue.length < n := by
        simpa [Channel.isFull, show c.capacity = some n from hn] using hroom
      simpa using Nat.succ_le_of_lt hlt
  | took he hqueue =>
      have hle := hc n hn
      rw [hqueue] at hle
      exact Nat.le_of_succ_le hle

/-- The capacity that a channel was made with stays. -/
theorem capacity
    (h : Change id e c c') {n : Nat}
    (hc : c.capacity = some n) :
    c'.capacity = some n := by
  cases h with
  | none | sent | took | closed =>
      exact hc
  | made _ hempty =>
      subst hempty
      cases hc

/-- A channel that is made with a positive capacity has this capacity. -/
theorem capacity_of_made
    {n : Nat}
    (h : Change id (.made id (some n)) c c') (hpos : 0 < n) :
    c'.capacity = some n := by
  cases h with
  | none he =>
      simp [Event.changes] at he
  | made he _ =>
      cases he
      simp [Channel.ofCapacity, hpos]
  | sent he | took he | closed he =>
      cases he

/-- Nothing is added to a closed channel. -/
theorem sent?_of_closed
    (h : Change id e c c')
    (hc : c.closed = true) :
    e.sent? id = .none := by
  cases h with
  | none he =>
      exact Event.sent?_of_changes he
  | made he _ | took he _ | closed he =>
      subst he
      rfl
  | sent _ hopen _ =>
      rw [hopen] at hc
      cases hc

/-- What is closed and empty stays so. -/
theorem exhausted
    (h : Change id e c c')
    (hc : c.closed = true) (hempty : c.queue = []) :
    c'.closed = true ∧ c'.queue = [] ∧ e.taken? id = .none ∧ e.sent? id = .none := by
  refine ⟨h.closed_mono hc, ?_, ?_, h.sent?_of_closed hc⟩
  · cases h with
    | none | closed =>
        exact hempty
    | made =>
        rfl
    | sent _ hopen _ =>
        cases hopen.symm.trans hc
    | took _ hqueue =>
        cases hempty.symm.trans hqueue
  · cases h with
    | none he =>
        exact Event.taken?_of_changes he
    | made he | sent he | closed he =>
        subst he
        rfl
    | took _ hqueue =>
        cases hempty.symm.trans hqueue

end Change

/-- A receiver learns of a closed channel that is empty. -/
theorem Step.empty_of_ended
    {s s' : State α} {t id : Nat}
    (h : Step s t (.ended id) s') :
    (s.channel id).queue = [] ∧ (s.channel id).closed = true := by
  cases h with
  | finish _ _ hreceive =>
      obtain ⟨hempty, hclosed, -⟩ := Hub.receive_closed hreceive
      exact ⟨hempty, hclosed⟩

/-! ### Selects -/

namespace Event

/-- Whether an event changes what some channel holds, or closes it. -/
def isChange : Event α → Bool
  | made _ _ | sent _ _ | took _ _ _ | closed _ => true
  | _ => false

/-- Whether a select begins. -/
def isBegan : Event α → Bool
  | began _ => true
  | _ => false

end Event

/-- What a thread has done since it last began a select, the latest first. -/
def Log.duringSelect (t : Nat) (log : Log α) : List (Event α) :=
  ((log.filter (·.1 == t)).map (·.2)).takeWhile (!·.isBegan)

/-- Of all the events of a select, just one changes a channel if it has received a value: the value
is taken out of the channel of the arm that it reports. -/
def Fires (arms : List Channel.Arm) (how : Channel.Selected α) (events : List (Event α)) : Prop :=
  match how with
  | .received i v => ∃ id left, arms[i]? = some (.receive id) ∧
      events.filter Event.isChange = [.took id v left]
  | .closed i => (∃ id, arms[i]? = some (.closed id)) ∧ events.filter Event.isChange = []
  | .exhausted => events.filter Event.isChange = []

/-- What a select has changed so far. -/
def Phase.Changed (arms : List Channel.Arm) (events : List (Event α)) : Phase α → Prop
  | .leaving _ how => Fires arms how events
  | _ => events.filter Event.isChange = []

theorem Log.duringSelect_of_ne
    {log : Log α} {t i : Nat} {e : Event α}
    (hne : i ≠ t) :
    Log.duringSelect i ((t, e) :: log) = log.duringSelect i := by
  simp [Log.duringSelect, Ne.symm hne]

theorem Log.duringSelect_began
    {log : Log α} {t : Nat} {arms : List Channel.Arm} :
    Log.duringSelect t ((t, .began arms) :: log) = [] := by
  simp [Log.duringSelect, Event.isBegan]

theorem Log.duringSelect_cons
    {log : Log α} {t : Nat} {e : Event α}
    (he : e.isBegan = false) :
    Log.duringSelect t ((t, e) :: log) = e :: log.duringSelect t := by
  simp [Log.duringSelect, he]

/-- A step of a select changes at most what it has to. -/
theorem SelectStep.changed
    {log : Log α} {u u' : Hub α} {t w : Nat} {arms : List Channel.Arm} {p : Pc α} {e : Event α}
    {phase : Phase α}
    (h : SelectStep u w arms p e phase u')
    (hbefore : ∀ phase, p = .selecting w arms phase → phase.Changed arms (log.duringSelect t)) :
    phase.Changed arms (Log.duringSelect t ((t, e) :: log)) := by
  have hquiet {e : Event α} (he : e.isBegan = false) (hchange : e.isChange = false) :
      (Log.duringSelect t ((t, e) :: log)).filter Event.isChange =
        (log.duringSelect t).filter Event.isChange := by
    rw [Log.duringSelect_cons he, List.filter_cons_of_neg]
    simp [hchange]
  cases h with
  | begin =>
      rw [Log.duringSelect_began]
      rfl
  | watch | examine | choose | noneReady | probe | alive | sleep =>
      exact (hquiet rfl rfl).trans (hbefore _ rfl)
  | @scan phase _ hregistered =>
      have hchanged := hbefore phase rfl
      cases phase with
      | leaving rest how =>
          exact (hregistered (.receive 0)).elim
      | watching | scanning | firing | probing | waiting | asleep =>
          exact (hquiet rfl rfl).trans hchanged
  | @take i id v left _ harm =>
      have hnone : (log.duringSelect t).filter Event.isChange = [] := hbefore _ rfl
      refine ⟨id, left, harm, ?_⟩
      rw [Log.duringSelect_cons rfl, List.filter_cons_of_pos rfl, hnone]
  | fireClosed harm =>
      exact ⟨⟨_, harm⟩, (hquiet rfl rfl).trans (hbefore _ rfl)⟩
  | exhaust =>
      exact (hquiet rfl rfl).trans (hbefore _ rfl)
  | @unwatch a rest how =>
      have hfires : Fires arms how (log.duringSelect t) := hbefore _ rfl
      cases how with
      | received i v =>
          obtain ⟨id, left, harm, hevents⟩ := hfires
          exact ⟨id, left, harm, (hquiet rfl rfl).trans hevents⟩
      | closed i =>
          obtain ⟨harm, hevents⟩ := hfires
          exact ⟨harm, (hquiet rfl rfl).trans hevents⟩
      | exhausted =>
          exact (hquiet rfl rfl).trans hfires

/-! ### Runs -/

namespace Run

variable {log later earlier : Log α} {s : State α} {t id : Nat}

/-- What was taken, and then what is queued, is what was sent. -/
theorem conserves
    (h : Run log s) (id : Nat) :
    log.takenFrom id ++ (s.channel id).queue = log.sentTo id := by
  induction h with
  | start =>
      simp [Log.takenFrom, Log.sentTo, State.channel, State.start, Hub.channel_of_size_le, Hub.empty]
  | step _ hstep ih =>
      exact (hstep.change id).conserves ih

/-- No queue is longer than its capacity. -/
theorem fits
    (h : Run log s) (id : Nat) :
    ∀ n, (s.channel id).capacity = some n → (s.channel id).queue.length ≤ n := by
  induction h with
  | start =>
      intro n hn
      rw [State.channel, Hub.channel_of_size_le (Nat.zero_le id)]
      exact Nat.zero_le n
  | step _ hstep ih =>
      exact (hstep.change id).fits ih

/-- A channel has the capacity that it was made with, if that was positive. -/
theorem capacity
    (h : Run log s) {n : Nat}
    (hmade : (t, .made id (some n)) ∈ log) (hpos : 0 < n) :
    (s.channel id).capacity = some n := by
  induction h with
  | start =>
      cases hmade
  | step _ hstep ih =>
      rcases List.mem_cons.mp hmade with heq | hmade
      · cases heq
        exact (hstep.change id).capacity_of_made hpos
      · exact (hstep.change id).capacity (ih hmade)

/-- A channel is closed when it has been closed. -/
theorem closed_iff
    (h : Run log s) :
    (s.channel id).closed = true ↔ ∃ t, (t, .closed id) ∈ log := by
  induction h with
  | start =>
      simp [State.channel, State.start, Hub.channel_of_size_le, Hub.empty]
  | @step log s s' t e _ hstep ih =>
      have hchange := hstep.change id
      constructor
      · intro hclosed
        cases hbefore : (s.channel id).closed with
        | true =>
            obtain ⟨t', hmem⟩ := ih.mp hbefore
            exact ⟨t', List.mem_cons_of_mem _ hmem⟩
        | false =>
            rw [hchange.eq_closed hbefore hclosed]
            exact ⟨t, List.mem_cons_self⟩
      · rintro ⟨t', hmem⟩
        rcases List.mem_cons.mp hmem with heq | hmem
        · cases heq
          exact hchange.closed_of_closed
        · exact hchange.closed_mono (ih.mpr ⟨t', hmem⟩)

/-- Nothing is sent to a channel once it has been closed. -/
theorem nothing_after_closed
    (h : Run log s)
    (hlog : log = later ++ (t, .closed id) :: earlier) :
    later.sentTo id = [] := by
  induction h generalizing later with
  | start =>
      cases later with
      | nil =>
          rfl
      | cons x later =>
          cases hlog
  | @step log s s' t' e hrun hstep ih =>
      cases later with
      | nil =>
          rfl
      | cons x later =>
          cases hlog
          have hclosed : (s.channel id).closed = true := hrun.closed_iff.mpr
            ⟨t, List.mem_append_right _ List.mem_cons_self⟩
          rw [Log.sentTo_cons, ih rfl, (hstep.change id).sent?_of_closed hclosed]
          rfl

/-- After a closing receivers get what was left, and nothing else. -/
theorem remaining
    (h : Run log s)
    (hlog : log = later ++ (t, .closed id) :: earlier) :
    earlier.takenFrom id ++ (later.takenFrom id ++ (s.channel id).queue) = earlier.sentTo id := by
  have hconserves := h.conserves id
  have hnothing := h.nothing_after_closed hlog
  subst hlog
  rw [Log.takenFrom_append, Log.sentTo_append, Log.takenFrom_cons, Log.sentTo_cons, hnothing]
    at hconserves
  simpa [Event.sent?, Event.taken?] using hconserves

/-- Once a receiver has learned that a channel is closed, it is and stays closed and empty. -/
theorem exhausted
    (h : Run log s)
    (hlog : log = later ++ (t, .ended id) :: earlier) :
    (s.channel id).closed = true ∧ (s.channel id).queue = [] ∧
      (∃ i, (i, .closed id) ∈ earlier) ∧ later.takenFrom id = [] ∧ later.sentTo id = [] := by
  induction h generalizing later with
  | start =>
      cases later with
      | nil =>
          cases hlog
      | cons x later =>
          cases hlog
  | @step log s s' i e hrun hstep ih =>
      cases later with
      | nil =>
          cases hlog
          obtain ⟨hempty, hclosed⟩ := hstep.empty_of_ended
          obtain ⟨hqueue, hsame⟩ := (hstep.change id).frame rfl
          rw [hqueue, hsame]
          exact ⟨hclosed, hempty, hrun.closed_iff.mp hclosed, rfl, rfl⟩
      | cons x later =>
          cases hlog
          obtain ⟨hclosed, hempty, hmem, htaken, hsent⟩ := ih rfl
          obtain ⟨hclosed', hempty', hnone, hnone'⟩ := (hstep.change id).exhausted hclosed hempty
          rw [Log.takenFrom_cons, Log.sentTo_cons, htaken, hsent, hnone, hnone']
          exact ⟨hclosed', hempty', hmem, rfl, rfl⟩

/-- Nobody sleeps at a closed channel without having been notified. -/
theorem notified_of_closed
    (h : Run log s)
    (hclosed : (s.channel id).closed = true) (i : Nat) :
    (∀ v, s.pc i ≠ .sending id v false) ∧ s.pc i ≠ .receiving id false := by
  induction h with
  | start =>
      simp [State.start]
  | @step log s s' t e _ hstep ih =>
      by_cases hne : i = t
      · subst hne
        cases hstep.own with
        | awake hsend hreceive =>
            exact ⟨fun v => hsend id v false, hreceive id false⟩
        | @sender id' v hpc hhub hopen hfull =>
            rw [hpc]
            refine ⟨fun v heq => ?_, by simp⟩
            cases heq
            rw [State.channel, hhub] at hclosed
            cases hopen.symm.trans hclosed
        | @receiver id' hpc hhub hopen hempty =>
            rw [hpc]
            refine ⟨fun v => by simp, fun heq => ?_⟩
            cases heq
            rw [State.channel, hhub] at hclosed
            cases hopen.symm.trans hclosed
      · cases hbefore : (s.channel id).closed with
        | true =>
            have hrouse := hstep.rouse hne
            obtain ⟨hsend, hreceive⟩ := ih hbefore
            exact ⟨fun v hp => hsend v (hrouse.of_sending hp),
              fun hp => hreceive (hrouse.of_receiving hp)⟩
        | false =>
            have he := (hstep.change id).eq_closed hbefore hclosed
            subst he
            cases hstep with
            | close =>
                exact Threads.all_notified s.pc id i
            | closeAgain _ _ hagain =>
                cases hbefore.symm.trans hagain

/-- A sender that waits at a closed channel can only be refused. -/
theorem refused_of_closed
    (h : Run log s)
    (hclosed : (s.channel id).closed = true) {i : Nat} {v : α} {notified : Bool}
    (hpc : s.pc i = .sending id v notified) (e : Event α) (s' : State α) :
    Step s i e s' ↔ e = .refused id ∧ s' = s.goTo i .idle s.hub := by
  have hnotified : notified = true := by
    cases notified with
    | false =>
        exact absurd hpc ((h.notified_of_closed hclosed i).1 v)
    | true =>
        rfl
  subst hnotified
  constructor
  · intro hstep
    have hoffers {id' : Nat} {v' : α} (ho : (s.pc i).Offers id' v') : id' = id ∧ v' = v := by
      rcases ho with hidle | hsending
      · cases hpc.symm.trans hidle
      · cases hpc.symm.trans hsending
        exact ⟨rfl, rfl⟩
    have hasks {id' : Nat} (ha : (s.pc i).Asks id') : False := by
      rcases ha with hidle | hreceiving
      · cases hpc.symm.trans hidle
      · cases hpc.symm.trans hreceiving
    cases hstep with
    | send ho _ hsend _ =>
        obtain ⟨rfl, rfl⟩ := hoffers ho
        cases hclosed.symm.trans (Hub.send_sent hsend).1
    | refuse ho _ hsend =>
        obtain ⟨rfl, rfl⟩ := hoffers ho
        obtain ⟨-, rfl⟩ := Hub.send_refused_iff.mp hsend
        exact ⟨rfl, rfl⟩
    | sleepFull ho _ hsend =>
        obtain ⟨rfl, rfl⟩ := hoffers ho
        cases hclosed.symm.trans (Hub.send_none hsend).1
    | receive ha | finish ha | sleepEmpty ha =>
        exact (hasks ha).elim
    | make _ hother | poll hother | pollNone hother | close hother | closeAgain hother
    | begin _ hother | watch hother | watched hother | examine hother | choose hother
    | noneReady hother | take hother | takeNone hother | fireClosed hother | probe hother
    | alive hother | exhaust hother | sleep hother | wake hother | unwatch hother
    | select hother =>
        cases hpc.symm.trans hother
  · rintro ⟨rfl, rfl⟩
    refine .refuse (.inr hpc) ?_ (Hub.send_refused_iff.mpr ⟨hclosed, rfl⟩)
    refine Nat.lt_of_not_le fun hle => ?_
    rw [State.channel, Hub.channel_of_size_le hle] at hclosed
    cases hclosed

/-- What a select has changed is what it is about to report. -/
theorem changed
    (h : Run log s) {w : Nat} {arms : List Channel.Arm} {phase : Phase α}
    (hpc : s.pc t = .selecting w arms phase) :
    phase.Changed arms (log.duringSelect t) := by
  induction h generalizing w arms phase with
  | start =>
      cases hpc
  | @step log s s' i e _ hstep ih =>
      by_cases hne : t = i
      · subst hne
        exact (hstep.selectStep hpc).changed fun phase' hbefore => ih hbefore
      · rw [Log.duringSelect_of_ne hne]
        exact ih ((hstep.selecting_iff hne).mp hpc)

/-- A select that has ended has changed what it reports. -/
theorem fires
    (h : Run log s) {arms : List Channel.Arm} {how : Channel.Selected α}
    (hlog : log = later ++ (t, .selected arms how) :: earlier) :
    Fires arms how (earlier.duringSelect t) := by
  induction h generalizing later with
  | start =>
      cases later with
      | nil =>
          cases hlog
      | cons x later =>
          cases hlog
  | step hrun hstep ih =>
      cases later with
      | nil =>
          cases hlog
          cases hstep with
          | select hpc =>
              exact hrun.changed hpc
      | cons x later =>
          cases hlog
          exact ih rfl

end Run

/-! ### The law -/

/-- A channel hands on what it is sent. -/
structure HandsOn (log : Log α) (s : State α) (id : Nat) : Prop where
  /-- What was taken out, and then what is queued, is what was sent. -/
  conserved : log.takenFrom id ++ (s.channel id).queue = log.sentTo id
  /-- The queue never exceeds a positive capacity. -/
  bounded : ∀ t n, (t, .made id (some n)) ∈ log → 0 < n → (s.channel id).queue.length ≤ n
  /-- After a closing nothing is added, and what is taken out is what was left. -/
  afterClosing : ∀ t (later earlier : Log α), log = later ++ (t, .closed id) :: earlier →
    later.sentTo id = [] ∧
      earlier.takenFrom id ++ (later.takenFrom id ++ (s.channel id).queue) = earlier.sentTo id
  /-- A send that begins after that is refused and adds nothing. -/
  refusal : (∃ t, (t, .closed id) ∈ log) → ∀ v, s.hub.send id v = some (false, s.hub)
  /-- A send that was waiting is refused and adds nothing. -/
  waitingRefused : (∃ t, (t, .closed id) ∈ log) → ∀ t v notified,
    s.pc t = .sending id v notified →
      ∀ e s', Step s t e s' ↔ e = .refused id ∧ s' = s.goTo t .idle s.hub
  /-- Who learns that the channel is closed does so after all values have been taken out. -/
  ended : ∀ t (later earlier : Log α), log = later ++ (t, .ended id) :: earlier →
    (∃ i, (i, .closed id) ∈ earlier) ∧ earlier.takenFrom id = earlier.sentTo id ∧
      later.takenFrom id = []
  /-- No receiver waits for more once the channel is closed. -/
  notWaiting : (∃ t, (t, .closed id) ∈ log) →
    s.hub.receive id ≠ none ∧ ∀ t, s.pc t ≠ .receiving id false
  /-- A step that is not about the channel leaves its queue as it was. -/
  frame : ∀ t e s', Step s t e s' → e.changes id = false →
    (s'.channel id).queue = (s.channel id).queue

/-- Every channel hands on what it is sent, whatever the order of the steps of the threads, and
every select that has ended took at most one value, out of the channel of the arm it reports. -/
theorem Run.handsOn
    {log : Log α} {s : State α}
    (h : Run log s) :
    (∀ id, HandsOn log s id) ∧
      ∀ t arms how (later earlier : Log α), log = later ++ (t, .selected arms how) :: earlier →
        Fires arms how (earlier.duringSelect t) := by
  refine ⟨fun id => ?_, fun t arms how later earlier hlog => h.fires hlog⟩
  exact
    { conserved := h.conserves id
      bounded := fun t n hmade hpos => h.fits id n (h.capacity hmade hpos)
      afterClosing := fun t later earlier hlog => ⟨h.nothing_after_closed hlog, h.remaining hlog⟩
      refusal := fun hclosed v => Hub.send_refused_iff.mpr ⟨h.closed_iff.mpr hclosed, rfl⟩
      waitingRefused := fun hclosed t v notified hpc =>
        h.refused_of_closed (h.closed_iff.mpr hclosed) hpc
      ended := fun t later earlier hlog => by
        obtain ⟨-, hempty, hclosed, htaken, hsent⟩ := h.exhausted hlog
        have hconserves := h.conserves id
        subst hlog
        rw [Log.takenFrom_append, Log.sentTo_append, Log.takenFrom_cons, Log.sentTo_cons, htaken,
          hsent, hempty] at hconserves
        exact ⟨hclosed, by simpa [Event.sent?, Event.taken?] using hconserves, htaken⟩
      notWaiting := fun hclosed => by
        have hc := h.closed_iff.mpr hclosed
        refine ⟨fun hnone => ?_, fun t => (h.notified_of_closed hc t).2⟩
        cases hc.symm.trans (Hub.receive_none hnone).2
      frame := fun t e s' hstep he => ((hstep.change id).frame he).1 }

/-- A value is sent to a channel that is then closed; a select receives it, and the next receiver
learns that the channel is closed. -/
theorem handsOn_select :
    ∃ (log : Log Nat) (s : State Nat), Run log s ∧ HandsOn log s 0 ∧
      log.sentTo 0 = [7] ∧ log.takenFrom 0 = [7] ∧ log.head? = some (1, .ended 0) := by
  -- thread 0 makes a channel, sends a value and closes the channel
  have h₁ := (Run.start : Run ([] : Log Nat) _).step (.make (t := 0) (some 1) rfl)
  have h₂ := h₁.step (.send (t := 0) (v := 7) (.inl rfl) Nat.zero_lt_one rfl
    (.nobody fun i => match i with | 0 | _ + 1 => rfl))
  have h₃ := h₂.step (.close (t := 0) rfl Nat.zero_lt_one rfl)
  -- thread 1 selects
  have h₄ := h₃.step (.begin (t := 1) [.receive 0] rfl
    fun a ha => List.mem_singleton.mp ha ▸ Nat.zero_lt_one)
  have h₅ := h₄.step (.watch (t := 1) rfl)
  have h₆ := h₅.step (.watched (t := 1) rfl)
  have h₇ := h₆.step (.examine (t := 1) rfl rfl)
  have h₈ := h₇.step (.choose (t := 1) (i := 0) rfl rfl List.mem_cons_self)
  have h₉ := h₈.step (.take (t := 1) (v := 7) rfl rfl rfl
    (.nobody fun i => match i with | 0 | 1 | _ + 2 => rfl))
  have h₁₀ := h₉.step (.unwatch (t := 1) rfl)
  have h₁₁ := h₁₀.step (.select (t := 1) rfl)
  -- and receives once more
  have h₁₂ := h₁₁.step (.finish (t := 1) (.inl rfl) Nat.zero_lt_one rfl)
  exact ⟨_, _, h₁₂, h₁₂.handsOn.1 0, rfl, rfl, rfl⟩

end Traffic
end ScriptEngine
