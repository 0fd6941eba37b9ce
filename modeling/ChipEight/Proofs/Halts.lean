import ChipEight.Proofs.Answers
import ChipEight.Proofs.RunSteps
import ChipEight.Proofs.Ticks

/-!
# Halts that last

A run comes to a halt for a reason that can be seen in the machine it leaves behind:
`Machine.Rests m k` is what `m` looks like after a run that halted for `k`. Except where
a run has used up its steps, the reason is still there when the next one begins, and it
is looked at before anything is done. So the next run halts at once, for the same reason.

Behind the end of the program and at a fault nothing but a single step can change that,
since ticks only move the timers, and no host is asked. A machine that awaits a key asks
for the keys once in every run. As long as none is down it stays where it is, and the
first step of the run that finds one down ends the wait.
-/

namespace ChipEight

variable {size : Nat} {σ α : Type} [Host σ]

namespace Machine

/-- How a run that halts for `k` leaves the machine. -/
def Rests (m : Machine size) : Halt → Prop
  | .endOfProgram => m.programEnd ≤ m.pc.toNat
  | .awaitingKey => m.pc.toNat < m.programEnd ∧ ∃ x, m.awaiting = some x
  | .fault e => m.pc.toNat < m.programEnd ∧ m.fault? = some e
  | .stepLimit => True

variable {m : Machine size} {k : Halt}

/-- The timers have no part in it. -/
theorem Rests.retimed (h : m.Rests k) (delay sound : Timer) : (m.retimed delay sound).Rests k := by
  cases k with
  | endOfProgram | awaitingKey | fault e | stepLimit => exact h

theorem rests_of_halt? {h : σ} (hlt : m.pc.toNat < m.programEnd)
    (hk : (m.step h).event.outcome.halt? = some k) : (m.step h).machine.Rests k := by
  cases m.stepCases h with
  | keyStored _ _ hs | executed _ _ _ hs =>
    rw [hs] at hk
    cases hk
  | blocked hx _ hs =>
    rw [hs] at hk ⊢
    cases hk
    exact ⟨hlt, _, hx⟩
  | unreadable hx hn hs =>
    rw [hs] at hk ⊢
    cases hk
    exact ⟨hlt, by rw [fault?, hx, hn]⟩
  | refused hx hn ho hs =>
    rw [hs] at hk ⊢
    cases hk
    exact ⟨hlt, by rw [fault?, hx, hn]; exact ho⟩

/-- A step that is going to fail asks nobody. -/
theorem question?_of_fault {e : Error} (hf : m.fault? = some e) : m.question? = none := by
  cases hx : m.awaiting with
  | some x =>
    rw [fault?, hx] at hf
    cases hf
  | none =>
    cases hn : m.next with
    | error d => exact question?_of_error hx hn
    | ok p =>
      rw [fault?, hx, hn] at hf
      exact question?_of_obstacle hx hn hf

end Machine

/-- **Whatever a run halts for can be seen in the machine.** -/
theorem rests_runFor (gather : α → UInt16 → Account → α) (budget : Nat) (a : α)
    (s : Session size σ) :
    (s.machine.runFor gather budget a s.host).machine.Rests
      (s.machine.runFor gather budget a s.host).halt := by
  induction budget generalizing a s with
  | zero => trivial
  | succ budget ih =>
    cases runCases gather budget a s with
    | ended h hr _ =>
      rw [hr]
      exact h
    | went _ _ hr _ =>
      rw [hr]
      exact ih _ _
    | stopped h hk hr _ =>
      rw [hr]
      exact Machine.rests_of_halt? h hk

namespace Session

variable {t : Session size σ} {k : Halt} {rs : List (Request σ)}

/-! ## The next run -/

/-- A run that halts for its first step makes that step, and asks for what it asks for. -/
theorem moments_of_halt? (hlt : t.machine.pc.toNat < t.machine.programEnd)
    (hk : t.step.event.outcome.halt? = some k) :
    t.moments .run = [⟨t, .step⟩]
      ∧ answersOf (t.moments .run) = Question.answer t.host t.machine.question? := by
  have hd : t.step.event.outcome ≠ .done := by
    intro hd
    rw [hd] at hk
    cases hk
  have ht : t.moments .run = [⟨t, .step⟩] := runTrail_of_ne_done 1048575 hlt hd
  refine ⟨ht, ?_⟩
  rw [ht, answersOf_singleton]
  rfl

/-- Behind the end of the program, and at a fault, the next run changes nothing and asks nobody. -/
theorem run_of_rests (h : t.machine.Rests k) (hk : k = .endOfProgram ∨ ∃ e, k = .fault e) :
    t.machine.run t.host = ⟨k, t.machine, t.host, ()⟩ ∧ answersOf (t.moments .run) = .none := by
  obtain rfl | ⟨e, rfl⟩ := hk
  · have hend : t.machine.programEnd ≤ t.machine.pc.toNat := h
    refine ⟨runFor_of_end _ 1048575 () hend, ?_⟩
    rw [moments, runTrail_of_end _ hend]
    rfl
  · obtain ⟨hlt, hf⟩ := h
    have ho : t.step.event.outcome = .failed e := Machine.outcome_eq_failed_iff.mpr hf
    obtain ⟨hm, hh⟩ := Machine.step_of_fault hf t.host
    constructor
    · refine (runFor_of_failed _ 1048575 () hlt ho).trans ?_
      rw [step, hm, hh]
    · rw [(moments_of_halt? (k := .fault e) hlt (by rw [ho]; rfl)).2, Machine.question?_of_fault hf]
      rfl

/-- If a key is awaited and none is down, it asks once, and that is all. -/
theorem run_of_released (h : t.machine.Rests .awaitingKey)
    (hk : ∀ j, (Host.keys t.host).1.isDown j = false) :
    t.machine.run t.host = ⟨.awaitingKey, t.machine, (Host.keys t.host).2, ()⟩
      ∧ answersOf (t.moments .run) = ⟨[(Host.keys t.host).1], []⟩ := by
  obtain ⟨hlt, x, hx⟩ := h
  have hs : t.step = ⟨Event.account t.machine.pc .blocked, t.machine, (Host.keys t.host).2⟩ :=
    Machine.step_of_released hx hk
  have ho : t.step.event.outcome = .blocked := by rw [hs]; rfl
  constructor
  · refine (runFor_of_blocked _ 1048575 () hlt ho).trans ?_
    rw [hs]
  · rw [(moments_of_halt? (k := .awaitingKey) hlt (by rw [ho]; rfl)).2,
      Machine.question?_of_awaiting hx]
    rfl

/-- In any case the keys are the first thing that is asked for. -/
theorem keypads_of_rests (h : t.machine.Rests .awaitingKey) :
    ∃ ys, t.moments .run = ⟨t, .step⟩ :: ys
      ∧ (answersOf (t.moments .run)).keypads = (Host.keys t.host).1 :: (answersOf ys).keypads := by
  obtain ⟨hlt, x, hx⟩ := h
  obtain ⟨ys, hys⟩ := runTrail_of_lt 1048575 hlt
  have ht : t.moments .run = ⟨t, .step⟩ :: ys := hys
  have hq : (Moment.mk t .step).question? = some .keys := Machine.question?_of_awaiting hx
  refine ⟨ys, ht, ?_⟩
  rw [ht, answersOf_cons, answersOf_singleton, hq]
  rfl

/-! ## Any number of requests -/

/-- A machine that rests is moved by no request but a step, as long as no key is found down. -/
theorem request_of_rests (h : t.machine.Rests k) (hk : k ≠ .stepLimit) {r : Request σ}
    (hr : r ≠ .move .step)
    (hp : ∀ p ∈ (answersOf (t.moments r)).keypads, ∀ j, p.isDown j = false) :
    ∃ delay sound, (t.request r).machine = t.machine.retimed delay sound := by
  cases r with
  | move mv =>
    cases mv with
    | step => exact absurd rfl hr
    | tick => exact ⟨t.machine.delay.next, t.machine.sound.next, rfl⟩
    | alter g => exact ⟨t.machine.delay, t.machine.sound, rfl⟩
  | run =>
    refine ⟨t.machine.delay, t.machine.sound, ?_⟩
    show (t.machine.run t.host).machine = t.machine
    cases k with
    | stepLimit => exact absurd rfl hk
    | endOfProgram => rw [(run_of_rests h (.inl rfl)).1]
    | fault e => rw [(run_of_rests h (.inr ⟨e, rfl⟩)).1]
    | awaitingKey =>
      obtain ⟨ys, -, ha⟩ := keypads_of_rests h
      rw [ha] at hp
      rw [(run_of_released h (hp _ List.mem_cons_self)).1]

theorem requests_of_rests (h : t.machine.Rests k) (hk : k ≠ .stepLimit) (hr : .move .step ∉ rs)
    (hp : ∀ p ∈ (answersOf (t.trail rs)).keypads, ∀ j, p.isDown j = false) :
    (t.requests rs).machine.Rests k
      ∧ ∃ delay sound, (t.requests rs).machine = t.machine.retimed delay sound := by
  induction rs generalizing t with
  | nil => exact ⟨h, t.machine.delay, t.machine.sound, rfl⟩
  | cons r rs ih =>
    rw [trail, answersOf_append] at hp
    obtain ⟨hp1, hp2⟩ := List.forall_mem_append.mp hp
    obtain ⟨delay, sound, hm⟩ := request_of_rests h hk (List.ne_of_not_mem_cons hr).symm hp1
    have hrest : (t.request r).machine.Rests k := by
      rw [hm]
      exact h.retimed delay sound
    obtain ⟨h1, delay', sound', h2⟩ := ih hrest (List.not_mem_of_not_mem_cons hr) hp2
    refine ⟨h1, delay', sound', ?_⟩
    show ((t.request r).requests rs).machine = _
    rw [h2, hm]
    rfl

/-- Behind the end of the program, and at a fault, nobody is asked anything any more. -/
theorem answersOf_trail_of_rests (h : t.machine.Rests k)
    (hk : k = .endOfProgram ∨ ∃ e, k = .fault e) (hr : .move .step ∉ rs) :
    answersOf (t.trail rs) = .none := by
  induction rs generalizing t with
  | nil => rfl
  | cons r rs ih =>
    have ha : answersOf (t.moments r) = .none ∧ (t.request r).machine.Rests k := by
      cases r with
      | move mv =>
        cases mv with
        | step => exact absurd rfl (List.ne_of_not_mem_cons hr)
        | tick => exact ⟨rfl, h.retimed t.machine.delay.next t.machine.sound.next⟩
        | alter g => exact ⟨rfl, h⟩
      | run =>
        obtain ⟨hrun, ha⟩ := run_of_rests h hk
        refine ⟨ha, ?_⟩
        show (t.machine.run t.host).machine.Rests k
        rw [hrun]
        exact h
    rw [trail, answersOf_append, ha.1, ih ha.2 (List.not_mem_of_not_mem_cons hr)]
    rfl

end Session

/--
**What a run has halted for, the next one halts for as well.**

Let a run halt for `k` and lead to `t`. Then come any ticks, changes of host and further
runs, but no single steps, and lead to `u`. At the end of the program and at a fault only
the timers have moved and no host was asked. The next run halts for `k` again and changes
nothing. The same holds of a machine that awaits a key, as long as no key was down when it
asked: if none is down now, the next run halts for `k` again, asks for the keys once, and
changes nothing else. If one is down, the lowest ends the wait in the first step of the run.
-/
theorem halt_lasts {s t u : Session size σ} {k : Halt} (ht : t = s.request .run)
    (hk : s.reply .run = .halted k) (rs : List (Request σ)) (hr : .move .step ∉ rs)
    (hu : u = t.requests rs) :
    (k = .endOfProgram ∨ (∃ e, k = .fault e) →
        (∃ delay sound, u.machine = t.machine.retimed delay sound)
          ∧ t.answers rs = .none
          ∧ u.reply .run = .halted k
          ∧ u.request .run = u
          ∧ u.answers [.run] = .none)
      ∧ (k = .awaitingKey → (∀ p ∈ (t.answers rs).keypads, ∀ j, p.isDown j = false) →
        (∃ delay sound, u.machine = t.machine.retimed delay sound)
          ∧ ((∀ j, (Host.keys u.host).1.isDown j = false) →
            u.reply .run = .halted .awaitingKey
              ∧ u.request .run = ⟨u.machine, (Host.keys u.host).2⟩
              ∧ u.answers [.run] = ⟨[(Host.keys u.host).1], []⟩)
          ∧ ∀ key, (Host.keys u.host).1.isDown key = true →
            (∀ j < key, (Host.keys u.host).1.isDown j = false) →
            ∃ x ys, u.machine.awaiting = some x
              ∧ u.step.event = .keyStored key x
              ∧ u.trail [.run] = ⟨u, .step⟩ :: ys
              ∧ u.after .step = ⟨{ u.machine.put x (UInt8.ofNat key.val) with
                  awaiting := none, pc := u.machine.pc + 2 }, (Host.keys u.host).2⟩) := by
  have hrest : t.machine.Rests k := by
    rw [ht, ← Reply.halted.inj hk]
    exact rests_runFor _ _ () s
  have hlast : ∀ v : Session size σ, v.answers [.run] = answersOf (v.moments .run) := by
    intro v
    rw [v.answers_eq, Session.trail, Session.trail, List.append_nil]
  rw [t.answers_eq, hlast]
  constructor
  · intro hkind
    have ha := Session.answersOf_trail_of_rests hrest hkind hr
    have hne : k ≠ .stepLimit := by
      obtain rfl | ⟨e, rfl⟩ := hkind
      · intro h; cases h
      · intro h; cases h
    obtain ⟨hrest', hm⟩ := Session.requests_of_rests hrest hne hr (by rw [ha]; intro p hp; cases hp)
    rw [← hu] at hrest' hm
    obtain ⟨hrun, hask⟩ := Session.run_of_rests hrest' hkind
    refine ⟨hm, ha, ?_, ?_, hask⟩
    · rw [Session.reply, hrun]
    · rw [Session.request, hrun]
  · rintro rfl hp
    obtain ⟨hrest', hm⟩ := Session.requests_of_rests hrest (by intro h; cases h) hr hp
    rw [← hu] at hrest' hm
    refine ⟨hm, fun hup => ?_, fun key hdown hlow => ?_⟩
    · obtain ⟨hrun, hask⟩ := Session.run_of_released hrest' hup
      refine ⟨?_, ?_, hask⟩
      · rw [Session.reply, hrun]
      · rw [Session.request, hrun]
    · obtain ⟨ys, htrail, -⟩ := Session.keypads_of_rests hrest'
      obtain ⟨-, x, hx⟩ := hrest'
      have hs : u.step = _ := Machine.step_of_pressed hx hdown hlow
      refine ⟨x, ys, hx, by rw [hs]; rfl, (List.append_nil _).trans htrail, ?_⟩
      rw [Session.after, hs]
      rfl

/-- A program that waits for a key and then returns from no subroutine. Keys 7 and 14 go down after
a run in vain. The next one stores the 7 and then fails, and so does every other. -/
theorem halt_lasts_waiting_and_fault :
    ∃ s t u : Session 4096 Scripted, Machine.load 4096 #[0xF0, 0x0A, 0x00, 0xEE] = .ok s.machine
      ∧ s.host = .start .released #[]
      ∧ t = s.request .run
      ∧ s.reply .run = .halted .awaitingKey
      ∧ (t.requests [.move .tick]).reply .run = .halted .awaitingKey
      ∧ u = t.requests [.move .tick,
          .move (.alter (.start ((Keypad.released.put 14 true).put 7 true) #[]))]
      ∧ u.step.event = .keyStored 7 0
      ∧ u.reply .run = .halted (.fault .stackEmpty)
      ∧ ((u.request .run).requests [.run, .move .tick]).reply .run
        = .halted (.fault .stackEmpty) := by
  have hd : Layout.displayStart 4096 = 3840 := Layout.displayStart_eq _
  obtain ⟨s, hh, hm, h0⟩ := Session.exists_atWord_host 4096 #[0xF0, 0x0A, 0x00, 0xEE]
    (Scripted.start .released #[]) (by decide)
  obtain ⟨e0, a0⟩ := Session.step_of_atWord (i := .awaitKey 0) h0 (by omega) (by decide) rfl rfl
  replace a0 : s.after .step = ⟨{ s.machine with awaiting := some 0 }, s.host⟩ := a0
  have hlt0 : s.machine.pc.toNat < s.machine.programEnd := by
    rw [h0.pc_toNat (by decide), h0.programEnd_eq]
    decide
  -- the first run takes one step and is then blocked
  have hw : (s.after .step).step.event.outcome = .blocked := by
    rw [a0, Session.step, hh, Machine.step_of_released rfl Keypad.isDown_released]
    rfl
  have hlt1 : (s.after .step).machine.pc.toNat < (s.after .step).machine.programEnd := by
    rw [a0]
    exact hlt0
  have hstop := Session.StopsAt.succ (.zero (.inr (by rw [hw]; decide))) hlt0 (by rw [e0]; rfl)
  have hrun := Session.run_of_blocked hstop (by decide) hlt1 hw
  have hreply : s.reply .run = .halted .awaitingKey := by rw [Session.reply, hrun]
  have ht : s.request .run = ⟨{ s.machine with awaiting := some 0 }, .start .released #[]⟩ := by
    rw [Session.request, hrun]
    show Session.mk (s.after .step).machine (Host.keys (s.after .step).host).2 = _
    rw [a0, hh]
    rfl
  obtain ⟨t, htm⟩ : ∃ t, t = s.request .run := ⟨_, rfl⟩
  obtain ⟨u, hu⟩ : ∃ u, u = t.requests [.move .tick,
      .move (.alter (.start ((Keypad.released.put 14 true).put 7 true) #[]))] := ⟨_, rfl⟩
  obtain ⟨-, hup, -⟩ := (halt_lasts htm hreply [.move .tick] (by simp) rfl).2 rfl
    (by intro p hp; cases hp)
  obtain ⟨hvain, -, -⟩ := hup (by rw [htm, ht]; exact Keypad.isDown_released)
  obtain ⟨-, -, hdown⟩ := (halt_lasts htm hreply _ (by simp) hu).2 rfl (by intro p hp; cases hp)
  have hum : u.machine = { s.machine with awaiting := some 0 }.tick := by rw [hu, htm, ht]; rfl
  have huh : u.host = .start ((Keypad.released.put 14 true).put 7 true) #[] := by rw [hu]; rfl
  obtain ⟨x, ys, hx, he, -, ha⟩ := hdown 7 (by rw [huh]; decide) (by rw [huh]; decide)
  obtain rfl : x = 0 := by
    rw [hum] at hx
    exact (Option.some.inj hx).symm
  -- the second run stores the key, and then there is no subroutine to return from
  have h1 : (u.after .step).machine.AtWord #[0xF0, 0x0A, 0x00, 0xEE] 1 := by
    rw [ha, hum]
    exact ⟨congrArg (· + 2) h0.pc_eq, rfl, h0.low_eq, h0.programEnd_eq⟩
  have hn := h1.next (i := .ret) (by omega) (by decide) rfl
  have hstack : (u.after .step).machine.stack = [] := by
    rw [ha, hum]
    exact congrArg Machine.stack (Machine.load_eq_ok_iff.mp hm).2
  have hf : (u.after .step).step.event.outcome = .failed .stackEmpty := by
    rw [Session.step_of_obstacle (e := .stackEmpty) h1.awaiting_eq hn
      (by rw [Machine.obstacle?, hstack]; rfl)]
    rfl
  have hlt : (u.after .step).machine.pc.toNat < (u.after .step).machine.programEnd := by
    rw [h1.pc_toNat (by decide), h1.programEnd_eq]
    decide
  have hlt2 : u.machine.pc.toNat < u.machine.programEnd := by
    rw [hum]
    exact hlt0
  have hstop' := Session.StopsAt.succ (.zero (.inr (by rw [hf]; decide))) hlt2 (by rw [he]; rfl)
  have hreply' : u.reply .run = .halted (.fault .stackEmpty) := by
    rw [Session.reply, Session.run_of_failed hstop' (by decide) hlt hf]
  obtain ⟨-, -, hagain, -⟩ := (halt_lasts rfl hreply' [.run, .move .tick] (by simp) rfl).1
    (.inr ⟨_, rfl⟩)
  exact ⟨s, t, u, hm, hh, htm, hreply, hvain, hu, he, hreply', hagain⟩

end ChipEight
