import ChipEight.Proofs.Loading

/-!
# Calls and returns

A call puts the address behind it on top of the call stack, and nothing but a
return takes anything off. The stack is its own list, not the bytes that are set
aside for one, so no program can write to it.

What a call found on the stack, with the address it added, is therefore the
bottom of the stack until the depth first falls below it. `Moment.stack_after`
lists what a moment can do to the stack, `Moment.frame_after` follows the bottom
through one moment, and `call_lasts_until_return` through everything that may come
between a call and its return.
-/

namespace ChipEight

variable {size : Nat} {σ : Type} [Host σ]

namespace Moment

/-- A moment leaves the call stack as it is, or adds one address, or is a return. -/
theorem stack_after (x : Moment size σ) :
    x.after.machine.stack = x.before.machine.stack
      ∨ (∃ a, x.after.machine.stack = a :: x.before.machine.stack)
      ∨ (x.executed? = some .ret
          ∧ x.before.machine.stack = x.after.machine.pc :: x.after.machine.stack) := by
  cases x.effect with
  | keyStored _ _ hm | ticked _ _ hm | still _ _ hm => rw [hm]; exact .inl rfl
  | @executed _ i hi _ _ ho hm =>
    rw [hm, Machine.stack_perform]
    cases i with
    | ret =>
      refine .inr (.inr ⟨hi, ?_⟩)
      -- the stack is not empty, or the return would have been refused
      cases hs : x.before.machine.stack with
      | nil => simp [Machine.obstacle?, hs] at ho
      | cons a st => simp [Machine.perform, hs]
    | call t => exact .inr (.inl ⟨_, rfl⟩)
    | _ => exact .inl rfl

/-- What a moment does to the bottom of the stack. -/
theorem frame_after (x : Moment size σ) {back : UInt16} {below : List UInt16}
    (hf : back :: below <:+ x.before.machine.stack) :
    (below.length < x.after.machine.stack.length → back :: below <:+ x.after.machine.stack)
      ∧ (x.after.machine.stack.length ≤ below.length →
          x.executed? = some .ret ∧ x.after.machine.pc = back
            ∧ x.after.machine.stack = below) := by
  -- as long as the bottom is there, the depth has not fallen below it
  have deep : ∀ {st : List UInt16}, back :: below <:+ st → ¬ st.length ≤ below.length := by
    intro st h
    have := h.length_le
    rw [List.length_cons] at this
    omega
  rcases x.stack_after with h | ⟨a, h⟩ | ⟨hi, h⟩
  · rw [h]
    exact ⟨fun _ => hf, fun hle => absurd hle (deep hf)⟩
  · have hf' : back :: below <:+ x.after.machine.stack := by
      rw [h]; exact hf.trans (List.suffix_cons _ _)
    exact ⟨fun _ => hf', fun hle => absurd hle (deep hf')⟩
  · rw [h] at hf
    rcases List.suffix_cons_iff.mp hf with heq | hf'
    · obtain ⟨h1, h2⟩ := List.cons.inj heq
      rw [h2]
      exact ⟨fun hlt => absurd hlt (Nat.lt_irrefl _), fun _ => ⟨hi, h1.symm, rfl⟩⟩
    · exact ⟨fun _ => hf', fun hle => absurd hle (deep hf')⟩

end Moment

/-- The bottom of the stack stays for as long as the depth does not fall below it. -/
theorem History.frame_of_depth {s t : Session size σ} {xs : List (Moment size σ)}
    (h : History s xs t) {back : UInt16} {below : List UInt16}
    (hd : ∀ x ∈ xs, below.length < x.after.machine.stack.length)
    (hf : back :: below <:+ s.machine.stack) : back :: below <:+ t.machine.stack := by
  induction h with
  | nil => exact hf
  | @cons s _ xs mv _ ih =>
    have hx : below.length < (Moment.after ⟨s, mv⟩).machine.stack.length :=
      hd _ List.mem_cons_self
    exact ih (fun x hx => hd x (List.mem_cons_of_mem _ hx))
      ((Moment.frame_after ⟨s, mv⟩ hf).1 hx)

/-- A call adds the address behind it. -/
theorem stack_of_call {s : Session size σ} {word : UInt16} {target : Address}
    (hc : s.step.event = .executed word (.call target)) :
    (s.after .step).machine.stack = (s.machine.pc + 2) :: s.machine.stack := by
  show (s.machine.step s.host).machine.stack = _
  change (s.machine.step s.host).event = _ at hc
  cases s.machine.stepCases s.host with
  | executed _ _ _ hs =>
    rw [hs] at hc ⊢
    cases hc
    exact Machine.stack_perform _ _ _
  | blocked _ _ hs | keyStored _ _ hs | unreadable _ _ hs | refused _ _ _ hs =>
    rw [hs] at hc
    cases hc

/--
**A call lasts until its return, which goes back to behind it.**

Let a step carry a call out. Whatever is asked for afterwards, look at any move
that is made, each step of a run by itself, up to which the depth has not dropped.
Either it has not dropped then, and the bottom of the stack is still the stack
at the call with the address behind the call on it. Or it has, and the move is
a return that goes on behind the call and leaves the stack as the call found it.
-/
theorem call_lasts_until_return {s : Session size σ} {word : UInt16} {target : Address}
    (hc : s.step.event = .executed word (.call target)) (rs : List (Request σ)) :
    (s.after .step).machine.stack = (s.machine.pc + 2) :: s.machine.stack
      ∧ ∀ (xs : List (Moment size σ)) (x : Moment size σ) (ys : List (Moment size σ)),
        (s.after .step).trail rs = xs ++ x :: ys →
        (∀ y ∈ xs, s.machine.stack.length < y.after.machine.stack.length) →
        (s.machine.stack.length < x.after.machine.stack.length →
            (s.machine.pc + 2) :: s.machine.stack <:+ x.after.machine.stack)
          ∧ (x.after.machine.stack.length ≤ s.machine.stack.length →
              x.executed? = some .ret ∧ x.after.machine.pc = s.machine.pc + 2
                ∧ x.after.machine.stack = s.machine.stack) := by
  have hs := stack_of_call hc
  refine ⟨hs, fun xs x ys ht hd => x.frame_after ?_⟩
  -- right after the call the frame is the whole stack
  exact (history_of_trail ht).frame_of_depth hd (hs ▸ List.suffix_rfl)

/-- A program that calls its third word, which is a return: one step after the call it is back. -/
theorem call_lasts_until_return_at_once :
    ∃ s : Session 870 Headless,
      Machine.load 870 #[0x22, 0x04, 0x00, 0xE0, 0x00, 0xEE] = .ok s.machine
        ∧ s.step.event = .executed 0x2204 (.call 0x204)
        ∧ (Moment.mk (s.after .step) .step).executed? = some .ret
        ∧ ((s.after .step).after .step).machine.pc = 0x202
        ∧ ((s.after .step).after .step).machine.stack = [] := by
  obtain ⟨p, hp⟩ : ∃ p : Array UInt8, p = #[0x22, 0x04, 0x00, 0xE0, 0x00, 0xEE] := ⟨_, rfl⟩
  have hd : 512 + (2 * 2 + 1) < Layout.displayStart 870 := by rw [Layout.displayStart_eq]; decide
  have hcall : Instruction.decode (wordAt p 0) = .ok (.call 0x204) := by rw [hp]; rfl
  have hret : Instruction.decode (wordAt p 2) = .ok .ret := by rw [hp]; rfl
  obtain ⟨hc, ha⟩ := Session.step_of_next (s := ⟨.fresh 870 p, Headless.mk⟩) rfl
    (Machine.next_of_low rfl rfl (by omega) hcall) rfl
  have hst : ((Session.after ⟨.fresh 870 p, Headless.mk⟩ .step).after .step).machine.stack = [] := by
    rw [ha, (Session.step_of_next rfl (Machine.next_of_low rfl rfl hd hret) rfl).2]
    rfl
  obtain ⟨h3, h4, h5⟩ := ((call_lasts_until_return hc [.move .step]).2 [] ⟨_, .step⟩ []
    rfl nofun).2 (by rw [Moment.after, hst]; exact Nat.zero_le _)
  have hw : wordAt p 0 = 0x2204 := by rw [hp]; decide
  rw [hw] at hc
  exact ⟨_, Machine.load_eq_ok_iff.mpr ⟨by decide, hp ▸ rfl⟩, hc, h3, h4, h5⟩

end ChipEight
