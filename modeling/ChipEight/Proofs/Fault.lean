import ChipEight.Proofs.Loading
import ChipEight.Proofs.Plain.Step

/-!
# A step that fails

Whether the next step fails, and with which error, is settled by the machine
alone. `Machine.fault?` reads the answer off it: no host is asked, and neither
timer is looked at. So whatever a failing step is repeated after (ticks, other
keys, other random bytes, runs, itself), it meets the machine it has met before
and fails in the same way.

That nothing is left behind by the part of a step that went well is no matter of
course. On plain data an instruction is executed as far as it goes, and what it has
written by then stays. There too the machine is found as it was.
-/

namespace ChipEight

variable {size : Nat} {σ : Type} [Host σ]

namespace Machine

/-- The error that the next step ends in, if it ends in one. -/
def fault? (m : Machine size) : Option Error :=
  match m.awaiting, m.next with
  | some _, _ => none
  | none, .error e => some e
  | none, .ok (_, i) => m.obstacle? i

/-- **A step fails as the machine says, under any host.** -/
theorem outcome_eq_failed_iff {m : Machine size} {h : σ} {e : Error} :
    (m.step h).event.outcome = .failed e ↔ m.fault? = some e := by
  cases m.stepCases h with
  | blocked hx _ hs | keyStored hx _ hs => simp [hs, fault?, hx, Event.outcome]
  | unreadable hx hn hs => simp [hs, fault?, hx, hn, Event.outcome]
  | refused hx hn ho hs | executed hx hn ho hs => simp [hs, fault?, hx, hn, ho, Event.outcome]

/-- A step that fails leaves machine and host as they were. -/
theorem step_of_fault {m : Machine size} {e : Error} (hf : m.fault? = some e) (h : σ) :
    (m.step h).machine = m ∧ (m.step h).host = h := by
  have ho : (m.step h).event.outcome = .failed e := outcome_eq_failed_iff.mpr hf
  cases m.stepCases h with
  | blocked _ _ hs | keyStored _ _ hs | executed _ _ _ hs => rw [hs] at ho; cases ho
  | unreadable _ _ hs | refused _ _ _ hs => rw [hs]; exact ⟨rfl, rfl⟩

theorem fault?_tick (m : Machine size) : m.tick.fault? = m.fault? := rfl

end Machine

namespace Session

/-- Nothing that can happen in a session repairs a fault. -/
theorem fault?_after {s : Session size σ} {e : Error} (hf : s.machine.fault? = some e)
    (mv : Move σ) : (s.after mv).machine.fault? = some e := by
  cases mv with
  | step => rw [show (s.after .step).machine = s.machine from (Machine.step_of_fault hf _).1, hf]
  | tick => rw [← hf]; exact s.machine.fault?_tick
  | alter h => exact hf

theorem fault?_request {s : Session size σ} {e : Error} (hf : s.machine.fault? = some e)
    (r : Request σ) : (s.request r).machine.fault? = some e :=
  (history_moments s r).preserves (P := fun t => t.machine.fault? = some e)
    (fun _ mv ht => fault?_after ht mv) hf

/-- While there is a fault, it is what every step comes back with. -/
theorem outcome_of_mem_replies {s : Session size σ} {e : Error} (hf : s.machine.fault? = some e)
    {rs : List (Request σ)} {o : Outcome} (ho : .stepped o ∈ s.replies rs) : o = .failed e := by
  induction rs generalizing s with
  | nil => cases ho
  | cons r rs ih =>
    rcases List.mem_cons.mp ho with h | h
    · -- the reply to `r` itself, which must then be a step
      cases r with
      | run => cases h
      | move mv =>
        cases mv with
        | step => rw [Reply.stepped.inj h]; exact Machine.outcome_eq_failed_iff.mpr hf
        | tick => cases h
        | alter _ => cases h
    · exact ih (fault?_request hf r) h

/--
**A step that fails changes nothing, and fails again ever after.**

Nothing is asked of the session, so this holds of those that come from a load
and of all others. That no host is asked is said by one that counts the
questions: its counts stand still. The later requests are any at all, in any
number, with ticks, other hosts and whole runs between the steps. And on plain data,
where nothing is looked at before it is done, the step leaves the same machine and
the same host.
-/
theorem failed_step_lasts {s : Session size σ} {e : Error}
    (hf : s.step.event.outcome = .failed e) :
    s.after .step = s
      ∧ (∀ polls rolls, (s.machine.step (⟨s.host, polls, rolls⟩ : Counted σ)).host
          = ⟨s.host, polls, rolls⟩)
      ∧ (∀ (rs : List (Request σ)) (o : Outcome), .stepped o ∈ s.replies rs → o = .failed e)
      ∧ ∀ limit, 65552 ≤ limit → 256 ≤ size →
          ∃ lines, s.machine.plain.step limit size s.host
            = .ok (.failed e, s.machine.plain, s.host, lines) := by
  have hm : s.machine.fault? = some e := Machine.outcome_eq_failed_iff.mp hf
  obtain ⟨h1, h2⟩ := Machine.step_of_fault hm s.host
  refine ⟨?_, fun polls rolls => (Machine.step_of_fault hm _).2,
    fun rs o ho => outcome_of_mem_replies hm ho,
    fun limit hlimit hsize => ⟨(s.machine.step s.host).records.map Record.line, ?_⟩⟩
  · show (⟨(s.machine.step s.host).machine, (s.machine.step s.host).host⟩ : Session size σ) = s
    rw [h1, h2]
  · change (s.machine.step s.host).event.outcome = _ at hf
    rw [Plain.step_plain hlimit hsize, Step.plain, hf, h1, h2]

/-- A program that returns from no subroutine is such a case, as soon as it is loaded. -/
theorem failed_step_lasts_stackEmpty :
    ∃ s : Session 866 Headless, Machine.load 866 #[0x00, 0xEE] = .ok s.machine
      ∧ s.step.event.outcome = .failed .stackEmpty
      ∧ s.after .step = s
      ∧ (∀ (rs : List (Request Headless)) (o : Outcome),
          .stepped o ∈ s.replies rs → o = .failed .stackEmpty)
      ∧ ∃ lines, s.machine.plain.step 4294967296 866 s.host
          = .ok (.failed .stackEmpty, s.machine.plain, s.host, lines) := by
  have hn : (Machine.fresh 866 #[0x00, 0xEE]).next = .ok (wordAt #[0x00, 0xEE] 0, .ret) := by
    refine Machine.next_of_low rfl rfl ?_ rfl
    rw [Layout.displayStart_eq]; decide
  have hm : (Machine.fresh 866 #[0x00, 0xEE]).fault? = some .stackEmpty := by
    rw [Machine.fault?, hn]
    rfl
  obtain ⟨s, hs⟩ : ∃ s : Session 866 Headless, s = ⟨.fresh 866 #[0x00, 0xEE], Headless.mk⟩ :=
    ⟨_, rfl⟩
  have hsm : s.machine = .fresh 866 #[0x00, 0xEE] := by rw [hs]
  have hf : s.step.event.outcome = .failed .stackEmpty :=
    Machine.outcome_eq_failed_iff.mpr (by rw [hsm]; exact hm)
  obtain ⟨h1, -, h2, h3⟩ := failed_step_lasts hf
  exact ⟨s, Machine.load_eq_ok_iff.mpr ⟨by decide, hsm⟩, hf, h1, h2,
    h3 4294967296 (by decide) (by decide)⟩

end Session

end ChipEight
