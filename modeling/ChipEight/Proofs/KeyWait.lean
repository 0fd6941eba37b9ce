import ChipEight.Proofs.Loading

/-!
# Waiting for a key

An instruction that waits for a key only takes a note of the register. It asks
nobody, not even when a key is down already. From then on each step asks for the
keys, once, and does nothing else until one is down. The lowest of them goes into
the register, and execution goes on behind the instruction.

Meanwhile ticks go on, and the host may be changed. Nothing but the timers can
have moved when the key comes at last: `Machine.waiting` is the machine as the
instruction found it, with the note and with any timers, and every move leads from
one such machine to another, as long as the wait goes on.
-/

namespace ChipEight

variable {size : Nat} {σ : Type} [Host σ]

namespace Machine

/-- The machine as it waits for a key for `x`, with its timers wherever they are by then. -/
def waiting (m : Machine size) (x : Register) (delay sound : Timer) : Machine size :=
  { m with awaiting := some x, delay := delay, sound := sound }

variable {m : Machine size} {x : Register}

/-- A wait begins with a note, and any host is left alone. -/
theorem step_of_next_awaitKey {word : UInt16} (hx : m.awaiting = none)
    (hn : m.next = .ok (word, .awaitKey x)) (h : σ) :
    m.step h
      = ⟨Event.account m.pc (.executed word (.awaitKey x)), { m with awaiting := some x }, h⟩ :=
  step_of_no_obstacle hx hn rfl h

/-- While it goes on, the host is asked for its keys and for nothing else, and no instruction is
carried out. -/
theorem step_of_awaiting (hx : m.awaiting = some x) (h : σ) :
    (m.step h).host = (Host.keys h).2 ∧ (m.step h).event.executed? = none := by
  cases m.stepCases h with
  | blocked _ _ hs | keyStored _ _ hs => rw [hs]; exact ⟨rfl, rfl⟩
  | unreadable hx' _ _ | refused hx' _ _ _ | executed hx' _ _ _ => rw [hx] at hx'; cases hx'

/-- As long as no key is down a step is in vain. -/
theorem step_of_released (hx : m.awaiting = some x) {h : σ}
    (hk : ∀ k, (Host.keys h).1.isDown k = false) :
    m.step h = ⟨Event.account m.pc .blocked, m, (Host.keys h).2⟩ :=
  step_of_noKey hx ((Keypad.lowest?_eq_none_iff _).mpr hk)

/-- The lowest key that is down ends the wait. -/
theorem step_of_pressed (hx : m.awaiting = some x) {h : σ} {k : Key}
    (hk : (Host.keys h).1.isDown k = true) (hl : ∀ j < k, (Host.keys h).1.isDown j = false) :
    m.step h = ⟨Event.account m.pc (.keyStored k x), m.storeKey k x, (Host.keys h).2⟩ :=
  step_of_key hx ((Keypad.lowest?_eq_some_iff _ _).mpr ⟨hk, hl⟩)

end Machine

/-- A move that does not end a wait only lets the timers go on. -/
theorem waiting_after {m : Machine size} {x : Register} {delay sound : Timer} {s : Session size σ}
    (hs : s.machine = m.waiting x delay sound) (mv : Move σ)
    (hw : (s.after mv).machine.awaiting ≠ none) :
    ∃ delay sound, (s.after mv).machine = m.waiting x delay sound := by
  cases mv with
  | tick => exact ⟨delay.next, sound.next, by rw [Session.after, hs]; rfl⟩
  | alter h => exact ⟨delay, sound, hs⟩
  | step =>
    have hx : s.machine.awaiting = some x := by rw [hs]; rfl
    change (s.machine.step s.host).machine.awaiting ≠ none at hw
    change ∃ delay sound, (s.machine.step s.host).machine = m.waiting x delay sound
    cases s.machine.stepCases s.host with
    | blocked _ _ hst => rw [hst]; exact ⟨delay, sound, hs⟩
    | keyStored _ _ hst => rw [hst] at hw; exact absurd rfl hw
    | unreadable hx' _ _ | refused hx' _ _ _ | executed hx' _ _ _ => rw [hx] at hx'; cases hx'

theorem History.waiting {m : Machine size} {x : Register} {s t : Session size σ}
    {xs : List (Moment size σ)} (h : History s xs t)
    (hs : ∃ delay sound, s.machine = m.waiting x delay sound)
    (hw : ∀ y ∈ xs, y.after.machine.awaiting ≠ none) :
    ∃ delay sound, t.machine = m.waiting x delay sound := by
  induction h with
  | nil => exact hs
  | cons mv _ ih =>
    obtain ⟨delay, sound, hs⟩ := hs
    refine ih (waiting_after hs mv (hw _ List.mem_cons_self)) ?_
    intro y hy
    exact hw y (List.mem_cons_of_mem _ hy)

/--
**A wait begins without a look at the keys, and ends with the first one that a step
finds down.**

Let a step carry out an instruction that waits for a key for `x`. It takes the note
and nothing more. That no host is asked is said by one that counts the questions.
Whatever is asked for afterwards, look at any step that is made while the wait goes
on. The machine is still the one from before, but for its timers. The step carries
no instruction out and asks for the keys exactly once. If none is down it is blocked
and the machine stays. Otherwise the lowest goes into the register, the wait is over
and execution goes on behind the instruction, with everything else as it was.
-/
theorem key_awaited_until_pressed {s : Session size σ} {word : UInt16} {x : Register}
    (hc : s.step.event = .executed word (.awaitKey x)) (rs : List (Request σ)) :
    s.step.event.outcome = .done
      ∧ s.after .step = ⟨{ s.machine with awaiting := some x }, s.host⟩
      ∧ (∀ polls rolls, (s.machine.step (⟨s.host, polls, rolls⟩ : Counted σ)).host
          = ⟨s.host, polls, rolls⟩)
      ∧ ∀ (xs : List (Moment size σ)) (y : Moment size σ) (ys : List (Moment size σ)),
        (s.after .step).trail rs = xs ++ y :: ys →
        (∀ z ∈ xs, z.after.machine.awaiting ≠ none) → y.move = .step →
        (∃ delay sound, y.before.machine = s.machine.waiting x delay sound)
          ∧ y.executed? = none
          ∧ (∀ polls rolls, (y.before.machine.step (⟨y.before.host, polls, rolls⟩ : Counted σ)).host
              = ⟨(Host.keys y.before.host).2, polls + 1, rolls⟩)
          ∧ ((∀ k, (Host.keys y.before.host).1.isDown k = false) →
              y.before.step.event.outcome = .blocked
                ∧ y.after = ⟨y.before.machine, (Host.keys y.before.host).2⟩)
          ∧ (∀ k, (Host.keys y.before.host).1.isDown k = true →
              (∀ j < k, (Host.keys y.before.host).1.isDown j = false) →
              y.before.step.event.outcome = .done
                ∧ y.after = ⟨{ y.before.machine.put x (UInt8.ofNat k.val) with
                    awaiting := none, pc := s.machine.pc + 2 }, (Host.keys y.before.host).2⟩) := by
  obtain ⟨hx, hn, _, ha⟩ := Session.of_executed hc
  refine ⟨by rw [hc]; rfl, ha, ?_, ?_⟩
  · intro polls rolls
    rw [Machine.step_of_next_awaitKey hx hn]
  · intro xs y ys ht hw hy
    obtain ⟨delay, sound, hm⟩ := (history_of_trail ht).waiting
      ⟨s.machine.delay, s.machine.sound, by rw [ha]; rfl⟩ hw
    have hx' : y.before.machine.awaiting = some x := by rw [hm]; rfl
    have hpc : y.before.machine.pc = s.machine.pc := by rw [hm]; rfl
    obtain ⟨t, mv⟩ := y
    cases hy
    refine ⟨⟨delay, sound, hm⟩, (Machine.step_of_awaiting hx' t.host).2,
      fun _ _ => (Machine.step_of_awaiting hx' _).1, ?_, ?_⟩
    · intro hk
      have hs : t.step = _ := Machine.step_of_released hx' hk
      rw [Moment.after, Session.after, hs]
      exact ⟨rfl, rfl⟩
    · intro k hk hl
      have hs : t.step = _ := Machine.step_of_pressed hx' hk hl
      rw [Moment.after, Session.after, hs, ← hpc]
      exact ⟨rfl, rfl⟩

/-- Keys 5 and 9 go down after a step in vain and a tick, and the next step stores the 5. -/
theorem key_awaited_until_pressed_lowest :
    ∃ s t : Session 866 Scripted, Machine.load 866 #[0xF0, 0x0A] = .ok s.machine
      ∧ s.step.event = .executed 0xF00A (.awaitKey 0)
      ∧ (s.after .step).step.event.outcome = .blocked
      ∧ t = ((((s.after .step).after .step).after .tick).after
          (.alter (.start ((Keypad.released.put 9 true).put 5 true) #[])))
      ∧ t.step.event.outcome = .done
      ∧ (t.after .step).machine.v 0 = 5
      ∧ (t.after .step).machine.pc = 514
      ∧ (t.after .step).machine.awaiting = none := by
  obtain ⟨s, hs⟩ : ∃ s : Session 866 Scripted,
      s = ⟨.fresh 866 #[0xF0, 0x0A], .start .released #[]⟩ := ⟨_, rfl⟩
  let keys : Scripted := .start ((Keypad.released.put 9 true).put 5 true) #[]
  have hm : Machine.load 866 #[0xF0, 0x0A] = .ok s.machine :=
    Machine.load_eq_ok_iff.mpr ⟨by decide, by rw [hs]⟩
  have hn : s.machine.next = .ok (wordAt #[0xF0, 0x0A] 0, .awaitKey 0) := by
    rw [hs]
    refine Machine.next_of_low rfl rfl ?_ rfl
    rw [Layout.displayStart_eq]; decide
  have hc := (Session.step_of_next (by rw [hs]; rfl) hn rfl).1
  obtain ⟨_, h1, _, h2⟩ := key_awaited_until_pressed hc
    [.move .step, .move .tick, .move (.alter keys), .move .step]
  obtain ⟨_, _, _, h3, _⟩ := h2 [] ⟨s.after .step, .step⟩ _ rfl nofun rfl
  obtain ⟨h4, h5⟩ := h3 (by rw [h1, hs]; decide)
  have hx : ((s.after .step).after .step).machine.awaiting = some 0 := by
    change (Moment.after ⟨s.after .step, .step⟩).machine.awaiting = some 0
    rw [h5, h1]
  obtain ⟨t, ht⟩ : ∃ t, t = (((s.after .step).after .step).after .tick).after (.alter keys) :=
    ⟨_, rfl⟩
  have hw : ∀ z ∈ [(⟨s.after .step, .step⟩ : Moment 866 Scripted),
      ⟨(s.after .step).after .step, .tick⟩, ⟨((s.after .step).after .step).after .tick, .alter keys⟩],
      z.after.machine.awaiting ≠ none := by
    have hne : ((s.after .step).after .step).machine.awaiting ≠ none := by rw [hx]; nofun
    simp only [List.mem_cons, List.not_mem_nil, or_false]
    -- neither a tick nor another host has to do with the wait
    rintro z (rfl | rfl | rfl) <;> exact hne
  obtain ⟨_, _, _, _, h6⟩ := h2 _ ⟨t, .step⟩ [] (by rw [ht]; rfl) hw rfl
  have hh : t.host = .start ((Keypad.released.put 9 true).put 5 true) #[] := by rw [ht]; rfl
  obtain ⟨h7, h8⟩ := h6 5 (by change (Host.keys t.host).1.isDown 5 = true; rw [hh]; decide)
    (by change ∀ j < 5, (Host.keys t.host).1.isDown j = false; rw [hh]; decide)
  change t.after .step = _ at h8
  refine ⟨s, t, hm, hc, h4, ht, h7, ?_, ?_, ?_⟩
  · rw [h8]; exact Vector.getElem_set_self _
  · rw [h8]
    change s.machine.pc + 2 = 514
    rw [hs]
    rfl
  · rw [h8]

end ChipEight
