import ChipEight.Proofs.StraightLine

/-!
# Where the ticks fall

A tick changes the two timers, and only three instructions ever look at them or store
into them. As long as none of these is carried out, a machine does what it does at its
own pace and the timers run down at theirs. Neither notices the other.

`Machine.retimed` is a machine with other timers. A step of it is the same step
(`step_retimed`), so a list of moves can be taken apart: what the steps do is settled
without the ticks, and what the ticks do is a matter of how many there are
(`requests_retimed`). Two lists that differ only in where the ticks fall come to the
same.

It is enough to know of one of them that no instruction with a timer was carried out.
Up to the first such instruction both have carried out the same ones, so the other
list has not come to any either.
-/

namespace ChipEight

variable {size : Nat} {σ : Type}

/-- Whether an instruction reads a timer or stores into one. -/
def Instruction.usesTimer : Instruction → Bool
  | .getDelay _ | .setDelay _ | .setSound _ => true
  | _ => false

namespace Timer

/-- The timer after `n` ticks. -/
def ticked (t : Timer) : Nat → Timer
  | 0 => t
  | n + 1 => t.next.ticked n

/-- What these ticks report, in order. -/
def reports (t : Timer) : Nat → List Tick
  | 0 => []
  | n + 1 => t.report :: t.next.reports n

end Timer

namespace Move

def isTick : Move σ → Bool
  | .tick => true
  | _ => false

/-- The moves without the ticks among them. -/
def unticked (ms : List (Move σ)) : List (Move σ) := ms.filter fun mv => !mv.isTick

theorem unticked_cons {mv : Move σ} (ht : mv.isTick = false) (ms : List (Move σ)) :
    unticked (mv :: ms) = mv :: unticked ms :=
  List.filter_cons_of_pos (by rw [ht]; rfl)

end Move

namespace Reply

/-- How a step ended, if the reply is that to one. -/
def outcome? : Reply → Option Outcome
  | .stepped o => some o
  | _ => none

/-- What a tick reported, if the reply is that to one. -/
def tick? : Reply → Option Tick
  | .ticked t => some t
  | _ => none

end Reply

/-! ## Other timers -/

namespace Machine

/-- The machine with other timers. -/
def retimed (m : Machine size) (delay sound : Timer) : Machine size :=
  { m with delay := delay, sound := sound }

variable [Host σ] (m : Machine size) (h : σ) (delay sound : Timer)

theorem next_retimed : (m.retimed delay sound).next = m.next := rfl

theorem obstacle?_retimed (i : Instruction) :
    (m.retimed delay sound).obstacle? i = m.obstacle? i := by
  cases i <;> rfl

/-- An instruction without a timer does the same whatever they are. -/
theorem perform_retimed {i : Instruction} (hi : i.usesTimer = false) :
    (m.retimed delay sound).perform h i
      = ((m.perform h i).1.retimed delay sound, (m.perform h i).2) := by
  cases i with
  | getDelay x | setDelay x | setSound x => cases hi
  | combine op x y => cases op <;> rfl
  | restore x =>
    rw [perform, perform, advance, advance, restore, restore]
    rfl
  | _ => rfl

/-- **The same happens in a step, and the same comes of it unless a timer is used.** -/
theorem step_retimed :
    ((m.retimed delay sound).step h).event = (m.step h).event
      ∧ ((∀ i, (m.step h).event.executed? = some i → i.usesTimer = false) →
        (m.retimed delay sound).step h
          = ⟨(m.step h).toAccount, (m.step h).machine.retimed delay sound, (m.step h).host⟩) := by
  have ht : m.TwinSteps (m.retimed delay sound) h :=
    twinSteps h rfl (fun _ => next_retimed m delay sound)
      fun _ _ => obstacle?_retimed m delay sound _
  cases ht with
  | still _ hs hs' | keyStored hs hs' =>
    rw [hs, hs']
    exact ⟨rfl, fun _ => rfl⟩
  | executed _ _ hs hs' =>
    rw [hs, hs']
    refine ⟨rfl, fun hi => ?_⟩
    rw [perform_retimed m h delay sound (hi _ rfl)]
    rfl

end Machine

/-! ## Moves, with the ticks taken out -/

variable [Host σ]

namespace Session

/-- The session with other timers. -/
def retimed (s : Session size σ) (delay sound : Timer) : Session size σ :=
  { s with machine := s.machine.retimed delay sound }

/-- No instruction that uses a timer is carried out in a move. -/
def QuietMove (s : Session size σ) (mv : Move σ) : Prop :=
  ∀ i, (Moment.mk s mv).executed? = some i → i.usesTimer = false

/-- None is in any of a list of moves. -/
def Quiet (s : Session size σ) (ms : List (Move σ)) : Prop :=
  ∀ x ∈ s.trail (ms.map .move), ∀ i, x.executed? = some i → i.usesTimer = false

variable {s : Session size σ} {mv : Move σ} {ms : List (Move σ)}

theorem quiet_cons : s.Quiet (mv :: ms) ↔ s.QuietMove mv ∧ (s.after mv).Quiet ms :=
  List.forall_mem_cons

variable (s) (delay sound : Timer)

/-- A move other than a tick is as quiet with other timers, and if it is, leads to the same. -/
theorem after_retimed (ht : mv.isTick = false) :
    ((s.retimed delay sound).QuietMove mv ↔ s.QuietMove mv)
      ∧ (s.QuietMove mv →
        (s.retimed delay sound).after mv = (s.after mv).retimed delay sound
          ∧ (s.retimed delay sound).reply (.move mv) = s.reply (.move mv)) := by
  cases mv with
  | tick => cases ht
  | alter g => exact ⟨Iff.rfl, fun _ => ⟨rfl, rfl⟩⟩
  | step =>
    obtain ⟨he, hs⟩ := s.machine.step_retimed s.host delay sound
    have hq : (s.retimed delay sound).QuietMove .step ↔ s.QuietMove .step := by
      show (∀ i, ((s.machine.retimed delay sound).step s.host).event.executed? = some i → _) ↔ _
      rw [he]
      rfl
    refine ⟨hq, fun hi => ?_⟩
    show (⟨((s.machine.retimed delay sound).step s.host).machine,
        ((s.machine.retimed delay sound).step s.host).host⟩ : Session size σ) = _
      ∧ Reply.stepped ((s.machine.retimed delay sound).step s.host).event.outcome = _
    rw [hs hi]
    exact ⟨rfl, rfl⟩

/-- How the steps among some requests ended, in order. -/
def outcomes (s : Session size σ) (rs : List (Request σ)) : List Outcome :=
  (s.replies rs).filterMap Reply.outcome?

/-- What the ticks among them reported, in order. -/
def reports (s : Session size σ) (rs : List (Request σ)) : List Tick :=
  (s.replies rs).filterMap Reply.tick?

theorem outcomes_cons (s : Session size σ) (r : Request σ) (rs : List (Request σ)) :
    s.outcomes (r :: rs) = (s.reply r).outcome?.toList ++ (s.request r).outcomes rs := by
  rw [outcomes, replies, List.filterMap_cons]
  cases (s.reply r).outcome? <;> rfl

theorem reports_cons (s : Session size σ) (r : Request σ) (rs : List (Request σ)) :
    s.reports (r :: rs) = (s.reply r).tick?.toList ++ (s.request r).reports rs := by
  rw [reports, replies, List.filterMap_cons]
  cases (s.reply r).tick? <;> rfl

theorem tick?_reply (s : Session size σ) (ht : mv.isTick = false) :
    (s.reply (.move mv)).tick? = none := by
  cases mv with
  | tick => cases ht
  | step | alter => rfl

/-- Only the moves that are no ticks decide whether all are quiet. -/
theorem quiet_retimed_iff (ms : List (Move σ)) :
    (s.retimed delay sound).Quiet ms ↔ s.Quiet (Move.unticked ms) := by
  induction ms generalizing s delay sound with
  | nil => exact Iff.rfl
  | cons mv ms ih =>
    cases ht : mv.isTick with
    | true =>
      cases mv with
      | tick =>
        rw [quiet_cons]
        exact ⟨fun h => (ih s delay.next sound.next).mp h.2,
          fun h => ⟨nofun, (ih s delay.next sound.next).mpr h⟩⟩
      | step | alter => cases ht
    | false =>
      obtain ⟨hq, ha⟩ := after_retimed s delay sound ht
      rw [Move.unticked_cons ht, quiet_cons, quiet_cons, hq]
      constructor
      · rintro ⟨h1, h2⟩
        rw [(ha h1).1] at h2
        exact ⟨h1, (ih _ _ _).mp h2⟩
      · rintro ⟨h1, h2⟩
        rw [(ha h1).1]
        exact ⟨h1, (ih _ _ _).mpr h2⟩

/-- **Steps and ticks can be told apart.** What the other moves lead to, and how the steps among
them end, is settled without the ticks. The timers and what the ticks report are a matter of their
number. -/
theorem requests_retimed {ms : List (Move σ)} (hq : s.Quiet (Move.unticked ms)) {n : Nat}
    (hn : ms.countP Move.isTick = n) :
    (s.retimed delay sound).requests (ms.map .move)
        = (s.requests ((Move.unticked ms).map .move)).retimed (delay.ticked n) (sound.ticked n)
      ∧ (s.retimed delay sound).outcomes (ms.map .move)
        = s.outcomes ((Move.unticked ms).map .move)
      ∧ (s.retimed delay sound).reports (ms.map .move) = sound.reports n := by
  subst hn
  -- a tick only starts the rest with other timers, so they have to be any in the induction
  induction ms generalizing s delay sound with
  | nil => exact ⟨rfl, rfl, rfl⟩
  | cons mv ms ih =>
    cases ht : mv.isTick with
    | true =>
      cases mv with
      | tick =>
        obtain ⟨h1, h2, h3⟩ := ih s delay.next sound.next hq
        rw [List.countP_cons_of_pos ht, List.map_cons, outcomes_cons, reports_cons]
        exact ⟨h1, h2, congrArg (sound.report :: ·) h3⟩
      | step | alter => cases ht
    | false =>
      rw [Move.unticked_cons ht] at hq ⊢
      obtain ⟨hq1, hq2⟩ := quiet_cons.mp hq
      obtain ⟨ha, hr⟩ := (after_retimed s delay sound ht).2 hq1
      obtain ⟨h1, h2, h3⟩ := ih (s.after mv) delay sound hq2
      rw [← ha] at h1 h2 h3
      rw [List.countP_cons_of_neg (by rw [ht]; nofun), List.map_cons, List.map_cons,
        outcomes_cons, outcomes_cons, reports_cons, hr, tick?_reply s ht]
      exact ⟨h1, congrArg _ h2, h3⟩

end Session

/--
**Where the ticks fall makes no difference to steps that use no timer.**

Let two lists of moves have as many ticks, and let the other moves be the same ones in
the same order. If no instruction that reads or sets a timer is carried out along the
first list, then both lead to the same machine and the same host, the steps end in the
same ways, and the ticks report the same.
-/
theorem ticks_commute {s : Session size σ} (ms ns : List (Move σ))
    (hu : Move.unticked ms = Move.unticked ns)
    (hn : ms.countP Move.isTick = ns.countP Move.isTick) (hq : s.Quiet ms) :
    s.requests (ms.map .move) = s.requests (ns.map .move)
      ∧ s.outcomes (ms.map .move) = s.outcomes (ns.map .move)
      ∧ s.reports (ms.map .move) = s.reports (ns.map .move) := by
  -- the session is itself with its own timers
  have hs : s = s.retimed s.machine.delay s.machine.sound := rfl
  have hm : s.Quiet (Move.unticked ms) := by
    rw [hs] at hq
    exact (s.quiet_retimed_iff _ _ ms).mp hq
  obtain ⟨h1, h2, h3⟩ := s.requests_retimed s.machine.delay s.machine.sound hm hn
  obtain ⟨k1, k2, k3⟩ := s.requests_retimed s.machine.delay s.machine.sound (hu ▸ hm) rfl
  rw [← hs, hu] at h1 h2
  exact ⟨h1.trans k1.symm, h2.trans k2.symm, h3.trans k3.symm⟩

/-- A tick between two instructions may as well come after them. -/
theorem ticks_commute_with_last_step :
    ∃ s : Session 4096 Headless, Machine.load 4096 #[0x60, 0x05, 0xA0, 0x00] = .ok s.machine
      ∧ s.Quiet [.step, .tick, .step]
      ∧ s.requests [.move .step, .move .tick, .move .step]
        = s.requests [.move .step, .move .step, .move .tick]
      ∧ s.outcomes [.move .step, .move .step, .move .tick] = [.done, .done]
      ∧ s.outcomes [.move .step, .move .tick, .move .step] = [.done, .done] := by
  have hd : Layout.displayStart 4096 = 3840 := Layout.displayStart_eq _
  obtain ⟨s, hm, h0⟩ := Session.exists_atWord 4096 #[0x60, 0x05, 0xA0, 0x00] Headless.mk (by decide)
  obtain ⟨e0, -, h1⟩ := Session.step_of_isStraight (i := .set 0 5) h0 (by omega) (by decide) rfl rfl
  have h2 : ((s.after .step).after .tick).machine.AtWord #[0x60, 0x05, 0xA0, 0x00] 1 :=
    ⟨h1.pc_eq, h1.awaiting_eq, h1.low_eq, h1.programEnd_eq⟩
  obtain ⟨e2, -⟩ := Session.step_of_atWord (i := .setIndex 0) h2 (by omega) (by decide) rfl rfl
  have hq : s.Quiet [.step, .tick, .step] := by
    refine Session.quiet_cons.mpr ⟨fun i hi => ?_, Session.quiet_cons.mpr ⟨nofun,
      Session.quiet_cons.mpr ⟨fun i hi => ?_, nofun⟩⟩⟩
    · rw [Moment.executed?, e0] at hi
      cases hi
      rfl
    · rw [Moment.executed?, e2] at hi
      cases hi
      rfl
  have ho : s.outcomes [.move .step, .move .tick, .move .step] = [.done, .done] := by
    show [s.step.event.outcome, ((s.after .step).after .tick).step.event.outcome] = _
    rw [e0, e2]
    rfl
  obtain ⟨hr, hs, -⟩ := ticks_commute [.step, .tick, .step] [.step, .step, .tick] rfl rfl hq
  exact ⟨s, hm, hq, hr, hs.symm.trans ho, ho⟩

end ChipEight
