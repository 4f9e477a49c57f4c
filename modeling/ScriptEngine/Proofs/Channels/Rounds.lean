import ScriptEngine.Proofs.Channels.Steps

/-!
# Rounds of a select

A select looks at its arms one after another, and other threads may come in between.  When none
does, a round of a select is the one operation `Hub.select?`: it fires the first ready arm, or finds
that all arms are dead, or begins to wait.

A thread that is `Alone` makes one step after another.  It scans all arms, and then either fires an
arm or probes all of them.
-/

namespace ScriptEngine

namespace Channel

variable {α : Type} {cs cs' : Array (Channel α)} {arms : List Arm} {how : Selected α}

/-- An arm that is ready can be fired. -/
theorem fire?_of_ready
    {a : Arm} (i : Nat)
    (hready : a.isReady cs = true) :
    ∃ r, fire? cs i a = some r := by
  cases a with
  | receive id =>
      simp only [Arm.isReady] at hready
      cases hchannel : cs[id]? with
      | none =>
          simp [hchannel] at hready
      | some c =>
          cases hqueue : c.queue with
          | nil =>
              cases hclosed : c.closed with
              | true | false =>
                  simp [hchannel, readiness, hqueue, hclosed] at hready
          | cons v rest =>
              simp [fire?, hchannel, tryReceive, hqueue]
  | closed id =>
      exact ⟨_, rfl⟩

/-- The first ready arm is fired. -/
theorem fireFirst?_some
    (first : Nat)
    (hfire : fireFirst? cs first arms = some (how, cs')) :
    ∃ i a, arms[i]? = some a ∧ a.isReady cs = true ∧ fire? cs (first + i) a = some (how, cs') := by
  induction arms generalizing first with
  | nil =>
      cases hfire
  | cons a arms ih =>
      rw [fireFirst?] at hfire
      split at hfire
      · next hready =>
          exact ⟨0, a, rfl, hready, hfire⟩
      · obtain ⟨i, b, hb, hready, hrest⟩ := ih (first + 1) hfire
        refine ⟨i + 1, b, hb, hready, ?_⟩
        rw [← hrest, Nat.add_assoc, Nat.add_comm 1 i]

/-- No arm is fired if none is ready. -/
theorem fireFirst?_none
    (first : Nat)
    (hfire : fireFirst? cs first arms = none) :
    ∀ a ∈ arms, a.isReady cs = false := by
  induction arms generalizing first with
  | nil =>
      intro a ha
      cases ha
  | cons a arms ih =>
      rw [fireFirst?] at hfire
      split at hfire
      · next hready =>
          obtain ⟨r, hr⟩ := fire?_of_ready first hready
          cases hfire.symm.trans hr
      · next hready =>
          intro b hb
          rcases List.mem_cons.mp hb with rfl | hb
          · exact Bool.eq_false_iff.mpr hready
          · exact ih (first + 1) hfire b hb

end Channel

namespace Traffic

variable {α : Type}

/-- One thread makes one step after another. -/
inductive Alone (t : Nat) : State α → State α → Prop
  | refl {s : State α} : Alone t s s
  | step {s s' s'' : State α} {e : Event α} : Step s t e s' → Alone t s' s'' → Alone t s s''

/-- Somebody who sleeps can be notified, or nobody sleeps. -/
theorem Threads.exists_notifyOne
    (notify? : Pc α → Option (Pc α)) (f : Threads α) :
    ∃ f', f.NotifyOne notify? f' := by
  by_cases hnobody : ∀ i, notify? (f i) = none
  · exact ⟨f, .nobody hnobody⟩
  · obtain ⟨i, hi⟩ := Classical.not_forall.mp hnobody
    obtain ⟨p, hp⟩ := Option.ne_none_iff_exists'.mp hi
    exact ⟨f.set i p, .one hp⟩

namespace Alone

variable {s s' s'' : State α} {t w : Nat} {arms : List Channel.Arm}

theorem trans
    (h : Alone t s s') (h' : Alone t s' s'') :
    Alone t s s'' := by
  induction h with
  | refl =>
      exact h'
  | step hstep _ ih =>
      exact .step hstep (ih h')

/-- One more arm is scanned. -/
theorem mem_ready
    {u : Hub α} {k : Nat} {ready : List Nat} {b : Channel.Arm}
    (hb : arms[k]? = some b)
    (hready : ∀ i, i ∈ ready ↔ i < k ∧ ∃ a, arms[i]? = some a ∧ a.isReady u.channels = true)
    (i : Nat) :
    (i ∈ if b.isReady u.channels then ready ++ [k] else ready) ↔
      i < k + 1 ∧ ∃ a, arms[i]? = some a ∧ a.isReady u.channels = true := by
  have hself : (∃ a, arms[k]? = some a ∧ a.isReady u.channels = true) ↔
      b.isReady u.channels = true := by
    simp [hb]
  rcases Nat.lt_trichotomy i k with hlt | rfl | hgt
  · have hne : i ≠ k := Nat.ne_of_lt hlt
    have hlt' : i < k + 1 := Nat.lt_succ_of_lt hlt
    cases b.isReady u.channels with
    | true | false =>
        simp [hready, hlt, hlt', hne]
  · cases hbready : b.isReady u.channels with
    | true | false =>
        simp [hready, hb, hbready]
  · have hne : i ≠ k := Nat.ne_of_gt hgt
    have hnot : ¬i < k := Nat.not_lt.mpr (Nat.le_of_lt hgt)
    have hnot' : ¬i < k + 1 := Nat.not_lt.mpr hgt
    cases b.isReady u.channels with
    | true | false =>
        simp [hready, hnot, hnot', hne]

/-- All arms are scanned. -/
theorem scan
    {k : Nat} {ready : List Nat} (n : Nat)
    (hpc : s.pc t = .selecting w arms (.scanning k ready)) (hn : k + n = arms.length)
    (hready : ∀ i, i ∈ ready ↔ i < k ∧ ∃ a, arms[i]? = some a ∧ a.isReady s.hub.channels = true) :
    ∃ s' ready', Alone t s s' ∧ s'.hub = s.hub ∧
      s'.pc t = .selecting w arms (.scanning arms.length ready') ∧
      ∀ i, i ∈ ready' ↔ ∃ a, arms[i]? = some a ∧ a.isReady s.hub.channels = true := by
  induction n generalizing s k ready with
  | zero =>
      cases hn
      refine ⟨s, ready, .refl, rfl, hpc, fun i => ⟨fun hi => ((hready i).mp hi).2, ?_⟩⟩
      rintro ⟨a, ha, harm⟩
      exact (hready i).mpr ⟨(List.getElem?_eq_some_iff.mp ha).1, a, ha, harm⟩
  | succ n ih =>
      have hget : arms[k]? = some arms[k] := List.getElem?_eq_getElem (by omega)
      have hstep := Step.examine hpc hget
      have hnext := Threads.set_self (f := s.pc) t (.selecting w arms (.scanning (k + 1)
        (if arms[k].isReady s.hub.channels then ready ++ [k] else ready)))
      obtain ⟨s', ready', halone, hhub, hpc', hready'⟩ :=
        ih (s := s.goTo t _ s.hub) hnext (by omega) (mem_ready hget hready)
      exact ⟨s', ready', .step hstep halone, hhub, hpc', hready'⟩

/-- Arms are probed until one is found that is not dead. -/
theorem probe
    {k : Nat} (n : Nat)
    (hpc : s.pc t = .selecting w arms (.probing k)) (hn : k + n = arms.length) :
    ∃ s', Alone t s s' ∧ s'.hub = s.hub ∧
      s'.pc t = .selecting w arms (if (arms.drop k).all (·.isDead s.hub.channels)
        then .leaving arms .exhausted else .waiting) := by
  induction n generalizing s k with
  | zero =>
      have hget : arms[k]? = none := List.getElem?_eq_none_iff.mpr (by omega)
      rw [List.drop_eq_nil_of_le (by omega), List.all_nil, if_pos rfl]
      exact ⟨_, .step (.exhaust hpc hget) .refl, rfl, Threads.set_self t _⟩
  | succ n ih =>
      have hlt : k < arms.length := by omega
      have hget : arms[k]? = some arms[k] := List.getElem?_eq_getElem hlt
      rw [List.drop_eq_getElem_cons hlt, List.all_cons]
      cases hdead : arms[k].isDead s.hub.channels with
      | false =>
          rw [Bool.false_and, if_neg Bool.false_ne_true]
          exact ⟨_, .step (.alive hpc hget hdead) .refl, rfl, Threads.set_self t _⟩
      | true =>
          have hnext := Threads.set_self (f := s.pc) t (.selecting w arms (.probing (k + 1)))
          obtain ⟨s', halone, hhub, hpc'⟩ := ih (s := s.goTo t _ s.hub) hnext (by omega)
          exact ⟨s', .step (.probe hpc hget hdead) halone, hhub, hpc'⟩

/-- An arm that can be fired is fired. -/
theorem fire
    {i : Nat} {a : Channel.Arm} {how : Channel.Selected α} {cs : Array (Channel α)}
    (hpc : s.pc t = .selecting w arms (.firing i)) (ha : arms[i]? = some a)
    (hfire : Channel.fire? s.hub.channels i a = some (how, cs)) :
    ∃ s', Alone t s s' ∧ s'.hub = { s.hub with channels := cs } ∧
      s'.pc t = .selecting w arms (.leaving arms how) := by
  cases a with
  | receive id =>
      obtain ⟨⟨v, c⟩, htaken, heq⟩ := Option.map_eq_some_iff.mp hfire
      obtain ⟨c₀, hchannel, htry⟩ := Option.bind_eq_some_iff.mp htaken
      cases heq
      have hsame : s.hub.channel id = c₀ := by
        simp [Hub.channel, Array.getD_eq_getD_getElem?, hchannel]
      have hrun : s.hub.tryReceive id = (some v, s.hub.put id c) := by
        rw [Hub.tryReceive, hsame, htry]
      obtain ⟨f, hnotify⟩ := Threads.exists_notifyOne (Pc.notifySender? id)
        (s.pc.set t (.selecting w arms (.leaving arms (.received i v))))
      refine ⟨_, .step (.take hpc ha hrun hnotify) .refl, rfl, ?_⟩
      exact hnotify.own .of_notifySender? (fun _ _ => by simp) fun _ => by simp
  | closed id =>
      cases hfire
      exact ⟨_, .step (.fireClosed hpc ha) .refl, rfl, Threads.set_self t _⟩

/-- A round that nobody interferes with is the one operation that selects among the arms. -/
theorem select?
    (hpc : s.pc t = .selecting w arms (.scanning 0 [])) :
    ∃ s', Alone t s s' ∧
      match s.hub.select? arms with
      | some (how, u) => s'.hub = u ∧ s'.pc t = .selecting w arms (.leaving arms how)
      | none => s'.hub = s.hub ∧ s'.pc t = .selecting w arms .waiting := by
  obtain ⟨s₁, ready, hscan, hhub, hpc₁, hready⟩ :=
    scan arms.length hpc (Nat.zero_add _) fun i => by simp
  have hend : arms[arms.length]? = none := List.getElem?_eq_none_iff.mpr (Nat.le_refl _)
  rw [← hhub] at hready ⊢
  unfold Hub.select? Channel.select?
  cases hfire : Channel.fireFirst? s₁.hub.channels 0 arms with
  | some r =>
      obtain ⟨how, cs⟩ := r
      obtain ⟨i, a, ha, harm, hrun⟩ := Channel.fireFirst?_some 0 hfire
      rw [Nat.zero_add] at hrun
      have hchoose := Step.choose hpc₁ hend ((hready i).mpr ⟨a, ha, harm⟩)
      have hnext := Threads.set_self (f := s₁.pc) t (.selecting w arms (.firing i))
      obtain ⟨s₂, hrest, hhub₂, hpc₂⟩ := fire (s := s₁.goTo t _ s₁.hub) hnext ha hrun
      exact ⟨s₂, hscan.trans (.step hchoose hrest), hhub₂, hpc₂⟩
  | none =>
      have hempty : ready = [] := List.eq_nil_iff_forall_not_mem.mpr fun i hi => by
        obtain ⟨a, ha, harm⟩ := (hready i).mp hi
        have hnot := Channel.fireFirst?_none 0 hfire a (List.mem_of_getElem? ha)
        cases harm.symm.trans hnot
      subst hempty
      have hnone := Step.noneReady hpc₁ hend
      have hnext := Threads.set_self (f := s₁.pc) t (.selecting w arms (.probing 0))
      obtain ⟨s₂, hrest, hhub₂, hpc₂⟩ :=
        probe (s := s₁.goTo t _ s₁.hub) arms.length hnext (Nat.zero_add _)
      refine ⟨s₂, hscan.trans (.step hnone hrest), ?_⟩
      have hpc₃ : s₂.pc t = .selecting w arms (if arms.all (·.isDead s₁.hub.channels)
          then .leaving arms .exhausted else .waiting) := hpc₂
      cases hdead : arms.all (·.isDead s₁.hub.channels) with
      | true =>
          rw [hdead] at hpc₃
          exact ⟨hhub₂, hpc₃⟩
      | false =>
          rw [hdead] at hpc₃
          exact ⟨hhub₂, hpc₃⟩

end Alone
end Traffic
end ScriptEngine
