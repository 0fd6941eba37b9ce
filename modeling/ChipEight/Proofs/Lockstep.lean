import ChipEight.Proofs.Effects

/-!
# Two sessions side by side

Two machines need not be equal to behave alike. Let `R` relate sessions of the one to
sessions of the other, and let a move that is made in related sessions, as long as the
first makes it under the condition `C`, show the same in both and lead to related
sessions again. That is what `Lockstep R C` says, and it is a matter of single moves.

`Lockstep.requests` makes it one of any requests. A run looks for the end of the
program before each step, so the two must agree on where it is, and on the program
counter. Then they stop at the same time, for the same reason.
-/

namespace ChipEight

variable {size size' : Nat} {σ α : Type} [Host σ]

/-- Related sessions stay so, and show the same, in every move under a condition. -/
structure Lockstep (R : Session size σ → Session size' σ → Prop) (C : Moment size σ → Prop) :
    Prop where
  pc_eq : ∀ {s t}, R s t → t.machine.pc = s.machine.pc
  programEnd_eq : ∀ {s t}, R s t → t.machine.programEnd = s.machine.programEnd
  event_eq : ∀ {s t}, R s t → C ⟨s, .step⟩ → t.step.event = s.step.event
  report_eq : ∀ {s t}, R s t → t.machine.tickReport = s.machine.tickReport
  after : ∀ {s t} mv, R s t → C ⟨s, mv⟩ → R (s.after mv) (t.after mv)

namespace Lockstep

variable {R : Session size σ → Session size' σ → Prop} {C : Moment size σ → Prop}
  {s : Session size σ} {t : Session size' σ}

/-- Runs of related sessions take the same steps, and halt in related sessions. -/
theorem runFor (hl : Lockstep R C) (gather : α → UInt16 → Account → α) (budget : Nat) (a : α)
    (hr : R s t) (hC : ∀ x ∈ Session.runTrail budget s, C x) :
    ∃ k b u v, s.machine.runFor gather budget a s.host = ⟨k, u.machine, u.host, b⟩
      ∧ t.machine.runFor gather budget a t.host = ⟨k, v.machine, v.host, b⟩
      ∧ R u v := by
  induction budget generalizing a s t with
  | zero => exact ⟨.stepLimit, a, s, t, rfl, rfl, hr⟩
  | succ budget ih =>
    have hpc := hl.pc_eq hr
    have hend := hl.programEnd_eq hr
    cases runCases gather budget a s with
    | ended h hs _ =>
      rw [← hend, ← hpc] at h
      exact ⟨.endOfProgram, a, s, t, hs, runFor_of_end gather budget a h, hr⟩
    | went h ho hs ht =>
      rw [ht] at hC
      -- the condition is known of this step, and of those that the rest of the run takes
      obtain ⟨hx, hC⟩ := List.forall_mem_cons.mp hC
      have he := hl.event_eq hr hx
      have hacc : t.step.toAccount = s.step.toAccount := Machine.account_congr hpc he
      rw [← hend, ← hpc] at h
      rw [hs, runFor_of_done gather budget a h (he ▸ ho), hpc, hacc]
      exact ih _ (hl.after .step hr hx) hC
    | @stopped k h hk hs ht =>
      rw [ht] at hC
      have hx : C ⟨s, .step⟩ := hC _ (List.mem_singleton_self _)
      have he := hl.event_eq hr hx
      have hacc : t.step.toAccount = s.step.toAccount := Machine.account_congr hpc he
      rw [← hend, ← hpc] at h
      rw [hs, runFor_of_halt gather budget a h (he ▸ hk), hpc, hacc]
      exact ⟨k, _, s.after .step, t.after .step, rfl, rfl, hl.after .step hr hx⟩

/-- A request is answered alike. -/
theorem request (hl : Lockstep R C) (r : Request σ) (hr : R s t) (hC : ∀ x ∈ s.moments r, C x) :
    t.reply r = s.reply r ∧ R (s.request r) (t.request r) := by
  cases r with
  | move mv =>
    have hx : C ⟨s, mv⟩ := hC _ (List.mem_singleton_self _)
    refine ⟨?_, hl.after mv hr hx⟩
    cases mv with
    | step => rw [Session.reply, Session.reply, hl.event_eq hr hx]
    | tick => rw [Session.reply, Session.reply, hl.report_eq hr]
    | alter h => rfl
  | run =>
    obtain ⟨k, b, u, v, hs, ht, huv⟩ := hl.runFor (fun _ _ _ => ()) Machine.maxRunSteps () hr hC
    rw [Session.reply, Session.reply, Session.request, Session.request, Machine.run, Machine.run,
      hs, ht]
    exact ⟨rfl, huv⟩

/-- **And so is a list of them.** -/
theorem requests (hl : Lockstep R C) (rs : List (Request σ)) (hr : R s t)
    (hC : ∀ x ∈ s.trail rs, C x) :
    t.replies rs = s.replies rs ∧ R (s.requests rs) (t.requests rs) := by
  induction rs generalizing s t with
  | nil => exact ⟨rfl, hr⟩
  | cons r rs ih =>
    obtain ⟨hC, hC'⟩ := List.forall_mem_append.mp hC
    obtain ⟨h1, h2⟩ := hl.request r hr hC
    obtain ⟨h3, h4⟩ := ih h2 hC'
    refine ⟨?_, h4⟩
    rw [Session.replies, Session.replies, h1, h3]

end Lockstep

end ChipEight
