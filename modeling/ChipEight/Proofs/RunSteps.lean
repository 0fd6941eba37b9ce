import ChipEight.Proofs.Fault
import ChipEight.Proofs.KeyWait
import ChipEight.Proofs.StraightLine

/-!
# A run is so many steps

Left to itself a run would go from step to step until it has a reason to stop: the
program counter has left the program, or the next step does not succeed. But a run
may take only so many steps, and the order in which it looks at all this decides
what it comes back with.

`Session.steps s n` is where `n` steps lead, and `s.StopsAt k` says that after `k` of
them there is a reason to stop for the first time. `run_eq_steps` says what becomes
of a run. A reason that is found in time is the one it halts for. The end of the
program is looked for before the step, so nothing behind it is ever tried. A run
that has used up its steps looks for nothing any more, and so it ends at the limit
even where its last step has just left the program.
-/

namespace ChipEight

variable {size : Nat} {σ α : Type} [Host σ]

/-! ## What a run leaves behind -/

/-- **A run gathers from its steps, in their order, and from nothing else.** -/
theorem gathered_runFor (gather : α → UInt16 → Account → α) (budget : Nat) (a : α)
    (s : Session size σ) :
    (s.machine.runFor gather budget a s.host).gathered
      = (Session.runTrail budget s).foldl
          (fun a x => gather a x.before.machine.pc x.before.step.toAccount) a := by
  induction budget generalizing a s with
  | zero => rfl
  | succ budget ih =>
    cases runCases gather budget a s with
    | ended _ hr ht | stopped _ _ hr ht =>
      rw [hr, ht]
      rfl
    | went _ _ hr ht =>
      rw [hr, ht]
      exact ih _ _

/-- Every step of a run starts within the program. -/
theorem pc_lt_of_mem_runTrail {budget : Nat} {s : Session size σ} {x : Moment size σ}
    (hx : x ∈ Session.runTrail budget s) :
    x.before.machine.pc.toNat < s.machine.programEnd := by
  induction budget generalizing s with
  | zero => cases hx
  | succ budget ih =>
    cases runCases (fun _ _ _ => ()) budget () s with
    | ended _ _ ht =>
      rw [ht] at hx
      cases hx
    | went h _ _ ht =>
      rw [ht] at hx
      rcases List.mem_cons.mp hx with rfl | hx
      · exact h
      · -- the end of the program is where it was before the step
        rw [← s.machine.programEnd_step s.host]
        exact ih hx
    | stopped h _ _ ht =>
      rw [ht] at hx
      rw [List.mem_singleton.mp hx]
      exact h

/-! ## Step by step -/

namespace Session

/-- The session after `n` steps, whatever came of them. -/
def steps (s : Session size σ) : Nat → Session size σ
  | 0 => s
  | n + 1 => (s.steps n).after .step

/-- A run that may still take steps stops here. -/
def Stops (s : Session size σ) : Prop :=
  s.machine.programEnd ≤ s.machine.pc.toNat ∨ s.step.event.outcome ≠ .done

/-- It does so after `k` steps, and not before. -/
def StopsAt (s : Session size σ) (k : Nat) : Prop :=
  (s.steps k).Stops ∧ ∀ j < k, ¬ (s.steps j).Stops

/-- The first `n` steps, each with the session it is made in. -/
def firstSteps (s : Session size σ) (n : Nat) : List (Moment size σ) :=
  (List.range n).map fun j => ⟨s.steps j, .step⟩

variable {s : Session size σ} {n : Nat}

theorem length_firstSteps (s : Session size σ) (n : Nat) : (s.firstSteps n).length = n := by
  rw [firstSteps, List.length_map, List.length_range]

theorem firstSteps_succ (s : Session size σ) (n : Nat) :
    s.firstSteps (n + 1) = s.firstSteps n ++ [⟨s.steps n, .step⟩] := by
  rw [firstSteps, List.range_succ, List.map_append]
  rfl

theorem not_stops_iff :
    ¬ s.Stops ↔ s.machine.pc.toNat < s.machine.programEnd ∧ s.step.event.outcome = .done := by
  rw [Stops, not_or, Nat.not_le, Decidable.not_not]

/-- A run goes from step to step as long as there is no reason to stop. -/
theorem runsThrough_steps (h : ∀ j < n, ¬ (s.steps j).Stops) :
    RunsThrough s (s.firstSteps n) (s.steps n) := by
  induction n with
  | zero => exact .nil s
  | succ n ih =>
    obtain ⟨hlt, hd⟩ := not_stops_iff.mp (h n (Nat.lt_succ_self n))
    rw [firstSteps_succ]
    exact (ih fun j hj => h j (Nat.lt_succ_of_lt hj)).append (.step hlt hd)

/-- The first of the steps may as well be taken before the others. -/
theorem steps_succ (s : Session size σ) (n : Nat) : s.steps (n + 1) = (s.after .step).steps n := by
  induction n with
  | zero => rfl
  | succ n ih => rw [steps, ih, steps]

theorem StopsAt.zero (h : s.Stops) : s.StopsAt 0 :=
  ⟨h, fun j hj => absurd hj (Nat.not_lt_zero j)⟩

theorem StopsAt.succ {k : Nat} (h : (s.after .step).StopsAt k)
    (hlt : s.machine.pc.toNat < s.machine.programEnd) (hd : s.step.event.outcome = .done) :
    s.StopsAt (k + 1) := by
  refine ⟨by rw [steps_succ]; exact h.1, fun j hj => ?_⟩
  cases j with
  | zero => exact not_stops_iff.mpr ⟨hlt, hd⟩
  | succ j =>
    rw [steps_succ]
    exact h.2 j (Nat.lt_of_succ_lt_succ hj)

/-- If no number of steps is the first after which there is a reason, there is none at all. -/
theorem not_stops_of_not_stopsAt (h : ∀ k < n, ¬ s.StopsAt k) : ∀ j < n, ¬ (s.steps j).Stops := by
  intro j
  induction j using Nat.strongRecOn with
  | ind j ih =>
    intro hj hs
    exact h j hj ⟨hs, fun i hi => ih i hi (Nat.lt_trans hi hj)⟩

/-! ## How a run ends -/

variable {k : Nat}

/-- What is left of a run when it finds a reason to stop. -/
theorem run_of_stopsAt (h : s.StopsAt k) (hk : k < Machine.maxRunSteps) :
    ∃ budget,
      s.machine.run s.host
          = (s.steps k).machine.runFor (fun _ _ _ => ()) (budget + 1) () (s.steps k).host
        ∧ s.trail [.run] = s.firstSteps k ++ runTrail (budget + 1) (s.steps k) :=
  (runsThrough_steps h.2).rest (by rwa [length_firstSteps])

theorem run_of_end (h : s.StopsAt k) (hk : k < Machine.maxRunSteps)
    (hp : (s.steps k).machine.programEnd ≤ (s.steps k).machine.pc.toNat) :
    s.machine.run s.host = ⟨.endOfProgram, (s.steps k).machine, (s.steps k).host, ()⟩
      ∧ s.trail [.run] = s.firstSteps k := by
  obtain ⟨budget, hr, ht⟩ := run_of_stopsAt h hk
  rw [hr, ht, runFor_of_end _ budget () hp, runTrail_of_end _ hp, List.append_nil]
  exact ⟨rfl, rfl⟩

/-- The last step of a run, if it has not left the program, is one that does not succeed. -/
theorem trail_of_lt (h : s.StopsAt k) (hk : k < Machine.maxRunSteps)
    (hp : (s.steps k).machine.pc.toNat < (s.steps k).machine.programEnd) :
    s.trail [.run] = s.firstSteps k ++ [⟨s.steps k, .step⟩] := by
  obtain ⟨budget, -, ht⟩ := run_of_stopsAt h hk
  have hd : (s.steps k).step.event.outcome ≠ .done := h.1.resolve_left (Nat.not_le.mpr hp)
  rw [ht, runTrail_of_ne_done budget hp hd]

theorem run_of_blocked (h : s.StopsAt k) (hk : k < Machine.maxRunSteps)
    (hp : (s.steps k).machine.pc.toNat < (s.steps k).machine.programEnd)
    (hb : (s.steps k).step.event.outcome = .blocked) :
    s.machine.run s.host
      = ⟨.awaitingKey, (s.steps k).machine, (Host.keys (s.steps k).host).2, ()⟩ := by
  obtain ⟨budget, hr, -⟩ := run_of_stopsAt h hk
  rw [hr, runFor_of_blocked _ budget () hp hb]
  obtain ⟨hm, hh⟩ := Machine.step_of_blocked hb
  rw [Session.step, hm, hh]

theorem run_of_failed (h : s.StopsAt k) (hk : k < Machine.maxRunSteps) {e : Error}
    (hp : (s.steps k).machine.pc.toNat < (s.steps k).machine.programEnd)
    (hf : (s.steps k).step.event.outcome = .failed e) :
    s.machine.run s.host = ⟨.fault e, (s.steps k).machine, (s.steps k).host, ()⟩ := by
  obtain ⟨budget, hr, -⟩ := run_of_stopsAt h hk
  rw [hr, runFor_of_failed _ budget () hp hf]
  obtain ⟨hm, hh⟩ := Machine.step_of_fault (Machine.outcome_eq_failed_iff.mp hf) (s.steps k).host
  rw [Session.step, hm, hh]

theorem run_of_not_stopsAt (h : ∀ k < Machine.maxRunSteps, ¬ s.StopsAt k) :
    s.machine.run s.host = ⟨.stepLimit, (s.steps Machine.maxRunSteps).machine,
        (s.steps Machine.maxRunSteps).host, ()⟩
      ∧ s.trail [.run] = s.firstSteps Machine.maxRunSteps := by
  obtain ⟨hr, ht⟩ := runsThrough_steps (not_stops_of_not_stopsAt h) 0
  rw [length_firstSteps, Nat.zero_add] at hr ht
  -- no steps are left, so the end of the program is not looked for
  exact ⟨hr, (List.append_nil _).trans (ht.trans (List.append_nil _))⟩

end Session

/--
**A run is the steps up to the first reason to stop, or as many as it may take.**

Let `t` be where `k` steps lead, and let there be a reason to stop for the first time.
If `k` is below the limit, the run takes exactly these steps. In `t` it halts without
another step if it is behind the program. Otherwise it tries one more, which changes
nothing: either that asks for the keys in vain, or it fails, and the run halts for
that. If there is no such `k` below the limit, the run takes as many steps as it may
and halts where they lead, wherever that is. A step that starts behind the program is
never made. Whatever the run gathers for a log, it gathers from these steps.
-/
theorem run_eq_steps (s : Session size σ) :
    (∀ k < Machine.maxRunSteps, s.StopsAt k → ∀ t, t = s.steps k →
        (t.machine.programEnd ≤ t.machine.pc.toNat →
            s.machine.run s.host = ⟨.endOfProgram, t.machine, t.host, ()⟩
              ∧ s.trail [.run] = s.firstSteps k)
          ∧ (t.machine.pc.toNat < t.machine.programEnd → t.step.event.outcome = .blocked →
            s.machine.run s.host = ⟨.awaitingKey, t.machine, (Host.keys t.host).2, ()⟩
              ∧ s.trail [.run] = s.firstSteps k ++ [⟨t, .step⟩])
          ∧ (∀ e, t.machine.pc.toNat < t.machine.programEnd → t.step.event.outcome = .failed e →
            s.machine.run s.host = ⟨.fault e, t.machine, t.host, ()⟩
              ∧ s.trail [.run] = s.firstSteps k ++ [⟨t, .step⟩]))
      ∧ ((∀ k < Machine.maxRunSteps, ¬ s.StopsAt k) → ∀ t, t = s.steps Machine.maxRunSteps →
          s.machine.run s.host = ⟨.stepLimit, t.machine, t.host, ()⟩
            ∧ s.trail [.run] = s.firstSteps Machine.maxRunSteps)
      ∧ (∀ x ∈ s.trail [.run],
          x.before.machine.pc.toNat < Layout.programStart + s.machine.programLength)
      ∧ ∀ (gather : α → UInt16 → Account → α) (a : α),
          (s.machine.runFor gather Machine.maxRunSteps a s.host).gathered
            = (s.trail [.run]).foldl
                (fun a x => gather a x.before.machine.pc x.before.step.toAccount) a := by
  have ht : s.trail [.run] = Session.runTrail Machine.maxRunSteps s := List.append_nil _
  refine ⟨?_, ?_, ?_, ?_⟩
  · intro k hk hs t he
    subst he
    refine ⟨Session.run_of_end hs hk, fun hp hb => ⟨?_, ?_⟩, fun e hp hf => ⟨?_, ?_⟩⟩
    · exact Session.run_of_blocked hs hk hp hb
    · exact Session.trail_of_lt hs hk hp
    · exact Session.run_of_failed hs hk hp hf
    · exact Session.trail_of_lt hs hk hp
  · intro h t he
    subst he
    exact Session.run_of_not_stopsAt h
  · intro x hx
    rw [ht] at hx
    exact pc_lt_of_mem_runTrail hx
  · intro gather a
    rw [ht]
    exact gathered_runFor gather Machine.maxRunSteps a s

/-- A program that sets a register and then waits for a key halts after two steps and a third in
vain. One that jumps to itself takes all the steps there are. -/
theorem run_eq_steps_waiting_and_endless :
    (∃ s : Session 4096 Headless, Machine.load 4096 #[0x60, 0x05, 0xF0, 0x0A] = .ok s.machine
      ∧ s.StopsAt 2
      ∧ (s.machine.run s.host).halt = .awaitingKey
      ∧ (s.machine.run s.host).machine = (s.steps 2).machine
      ∧ (s.trail [.run]).length = 3)
    ∧ ∃ s : Session 4096 Headless, Machine.load 4096 #[0x12, 0x00] = .ok s.machine
      ∧ (∀ k < Machine.maxRunSteps, ¬ s.StopsAt k)
      ∧ (s.machine.run s.host).halt = .stepLimit
      ∧ (s.machine.run s.host).machine = s.machine := by
  have hd : Layout.displayStart 4096 = 3840 := Layout.displayStart_eq _
  constructor
  · obtain ⟨s, hm, h0⟩ := Session.exists_atWord 4096
      #[0x60, 0x05, 0xF0, 0x0A] Headless.mk (by decide)
    obtain ⟨e0, -, h1⟩ := Session.step_of_isStraight (i := .set 0 5) h0 (by omega) (by decide) rfl
      rfl
    change (s.steps 1).machine.AtWord _ 1 at h1
    obtain ⟨e1, a1⟩ := Session.step_of_atWord (i := .awaitKey 0) h1 (by omega) (by decide) rfl rfl
    have hw : (s.steps 2).step.event.outcome = .blocked := by
      show ((s.steps 1).after .step).step.event.outcome = .blocked
      rw [a1, Session.step, Machine.step_of_released rfl fun k => Keypad.isDown_released k]
      rfl
    have hlt : (s.steps 2).machine.pc.toNat < (s.steps 2).machine.programEnd := by
      show ((s.steps 1).after .step).machine.pc.toNat < ((s.steps 1).after .step).machine.programEnd
      rw [a1]
      -- a wait leaves the program counter where it is
      show (s.steps 1).machine.pc.toNat < (s.steps 1).machine.programEnd
      rw [h1.pc_toNat (by decide), h1.programEnd_eq]
      decide
    have hs : s.StopsAt 2 := by
      refine ⟨.inr ?_, fun j hj => Session.not_stops_iff.mpr ?_⟩
      · rw [hw]
        intro h
        cases h
      · obtain rfl | rfl : j = 0 ∨ j = 1 := by omega
        · exact ⟨by rw [Session.steps, h0.pc_toNat (by decide), h0.programEnd_eq]; decide,
            by rw [Session.steps, e0]; rfl⟩
        · exact ⟨by rw [h1.pc_toNat (by decide), h1.programEnd_eq]; decide, by rw [e1]; rfl⟩
    obtain ⟨hr, ht⟩ := ((run_eq_steps (α := Unit) s).1 2 (by decide) hs _ rfl).2.1 hlt hw
    exact ⟨s, hm, hs, by rw [hr], by rw [hr], by rw [ht]; rfl⟩
  · obtain ⟨s, hm, h0⟩ := Session.exists_atWord 4096 #[0x12, 0x00] Headless.mk (by decide)
    obtain ⟨e0, a0⟩ := Session.step_of_atWord (i := .jump 0x200) h0 (by omega) (by decide) rfl rfl
    have hback : s.after .step = s := by
      have hpc : UInt16.ofNat (0x200 : Address).val = s.machine.pc := h0.pc_eq.symm
      rw [a0, Machine.perform, hpc]
    have hsteps : ∀ k, s.steps k = s := by
      intro k
      induction k with
      | zero => rfl
      | succ k ih => rw [Session.steps, ih, hback]
    have hs : ∀ k < Machine.maxRunSteps, ¬ s.StopsAt k := by
      rintro k - ⟨h, -⟩
      rw [hsteps] at h
      refine Session.not_stops_iff.mpr ⟨?_, by rw [e0]; rfl⟩ h
      rw [h0.pc_toNat (by decide), h0.programEnd_eq]
      decide
    obtain ⟨hr, -⟩ := (run_eq_steps (α := Unit) s).2.1 hs _ rfl
    exact ⟨s, hm, hs, by rw [hr], by rw [hr, hsteps]⟩

end ChipEight
