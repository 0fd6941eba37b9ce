import ChipEight.Proofs.Fault
import ChipEight.Proofs.StraightLine
import ChipEight.Proofs.WellFormed

/-!
# Why a step fails

`Machine.Cause` lists everything that can go wrong in a step, with the error that each
of it comes back as. It is written without the functions that the step consists of. A
word is an instruction if it is how one is written, whether or not the decoder would
find it, and what an instruction needs of memory is said for each of the four that
need any.

`step_fails_iff_cause` says that the list is complete and that nothing on it can
happen without being reported. The order in which a step looks is in the list itself:
a word that is not in memory is no instruction, and only the instruction that was
found is asked what it needs. So there is never more than one cause.

While a key is awaited nothing on the list matters. Such a step never fails, and it
is in vain exactly when no key is down.
-/

namespace ChipEight

variable {size : Nat} {σ : Type} [Host σ]

namespace Machine

/-- The word at the program counter as a number, its high byte first. -/
def wordThere (m : Machine size) : Nat :=
  256 * (m.memory.byte m.pc.toNat).toNat + (m.memory.byte (m.pc.toNat + 1)).toNat

/-- The word at the program counter is in memory, and is how `i` is written. -/
structure Finds (m : Machine size) (i : Instruction) : Prop where
  inMemory : m.pc.toNat + 2 ≤ size
  code_eq : i.code = m.wordThere

/-- Why a step fails that finds no key awaited, and how. -/
inductive Cause (m : Machine size) : Error → Prop where
  /-- The word at the program counter is not in memory, or only half of it. -/
  | noWord (h : size < m.pc.toNat + 2) : Cause m (.addressOutOfRange (max m.pc.toNat size))
  /-- No instruction is written that way. -/
  | noInstruction (h : m.pc.toNat + 2 ≤ size) (hi : ∀ i : Instruction, i.code ≠ m.wordThere) :
      Cause m (.unknownInstruction (UInt16.ofNat m.wordThere))
  /-- There is no call to return from. -/
  | noCall (hi : m.Finds .ret) (hs : m.stack = []) : Cause m .stackEmpty
  /-- Twelve calls are open. -/
  | noSlot {target : Address} (hi : m.Finds (.call target)) (hs : m.stack.length = 12) :
      Cause m .stackFull
  /-- Memory ends before the sprite does. -/
  | draw {x y : Register} {rows : Nibble} (hi : m.Finds (.draw x y rows))
      (h : size < m.index.toNat + rows.val) : Cause m (.addressOutOfRange (max m.index.toNat size))
  /-- It ends before three digits do. -/
  | writeDecimal {x : Register} (hi : m.Finds (.writeDecimal x)) (h : size < m.index.toNat + 3) :
      Cause m (.addressOutOfRange (max m.index.toNat size))
  /-- It ends before there is a byte for each register up to `x`. -/
  | save {x : Register} (hi : m.Finds (.save x)) (h : size < m.index.toNat + (x.val + 1)) :
      Cause m (.addressOutOfRange (max m.index.toNat size))
  /-- The same, where they are read. -/
  | restore {x : Register} (hi : m.Finds (.restore x)) (h : size < m.index.toNat + (x.val + 1)) :
      Cause m (.addressOutOfRange (max m.index.toNat size))

variable {m : Machine size} {i j : Instruction} {e : Error}

/-! ## The word that is found -/

theorem fetch_eq_wordThere (h : m.pc.toNat + 2 ≤ size) :
    m.fetch = .ok (UInt16.ofNat m.wordThere) := by
  have hw := toNat_of_fetch (fetch_of_le h)
  rw [fetch_of_le h, wordThere, ← hw, UInt16.ofNat_toNat]

/-- Both bytes together have no more than sixteen bits. -/
theorem toWord_eq_iff : i.toWord = UInt16.ofNat m.wordThere ↔ i.code = m.wordThere := by
  have hlt : m.wordThere < 65536 := by
    have h0 := (m.memory.byte m.pc.toNat).toNat_lt
    have h1 := (m.memory.byte (m.pc.toNat + 1)).toNat_lt
    rw [wordThere]
    omega
  rw [← UInt16.toNat_inj, Instruction.toNat_toWord, UInt16.toNat_ofNat_of_lt' hlt]

theorem Finds.next_eq (hi : m.Finds i) : m.next = .ok (i.toWord, i) := by
  refine next_eq_ok_iff.mpr ⟨?_, rfl⟩
  rw [fetch_eq_wordThere hi.inMemory, toWord_eq_iff.mpr hi.code_eq]

/-- Not more than one instruction is found. -/
theorem Finds.eq (hi : m.Finds i) (hj : m.Finds j) : i = j :=
  (Prod.mk.inj (Except.ok.inj (hi.next_eq.symm.trans hj.next_eq))).2

theorem finds_of_next {word : UInt16} (hn : m.next = .ok (word, i)) : m.Finds i := by
  obtain ⟨hf, hw⟩ := next_eq_ok_iff.mp hn
  have hle := (fetch_eq_ok_iff.mp hf).1
  rw [fetch_eq_wordThere hle] at hf
  exact ⟨hle, toWord_eq_iff.mp (hw.trans (Except.ok.inj hf).symm)⟩

theorem next_of_noWord (h : size < m.pc.toNat + 2) :
    m.next = .error (.addressOutOfRange (max m.pc.toNat size)) := by
  rw [next, fetch, Memory.overrun?, if_neg (Nat.not_le.mpr h)]

theorem next_of_noInstruction (h : m.pc.toNat + 2 ≤ size)
    (hi : ∀ i : Instruction, i.code ≠ m.wordThere) :
    m.next = .error (.unknownInstruction (UInt16.ofNat m.wordThere)) := by
  have hd := Instruction.decode_eq_error_iff.mpr
    ⟨fun i hw => hi i (toWord_eq_iff.mp hw), rfl⟩
  rw [next, fetch_eq_wordThere h]
  dsimp only
  rw [hd]

/-! ## Both directions -/

/-- What is on the list is reported. -/
theorem Cause.fault?_eq (hc : m.Cause e) (hx : m.awaiting = none) : m.fault? = some e := by
  cases hc with
  | noWord h => rw [fault?, hx, next_of_noWord h]
  | noInstruction h hi => rw [fault?, hx, next_of_noInstruction h hi]
  | noCall hi hs =>
    rw [fault?, hx, hi.next_eq]
    dsimp only
    rw [obstacle?, hs]
    rfl
  | noSlot hi hs =>
    rw [fault?, hx, hi.next_eq]
    dsimp only
    rw [obstacle?, hs]
    rfl
  | draw hi h | writeDecimal hi h | save hi h | restore hi h =>
    rw [fault?, hx, hi.next_eq]
    exact Memory.overrun?_eq_some_iff.mpr ⟨h, rfl⟩

/-- What stands in the way of an instruction is on the list. -/
theorem cause_of_obstacle (hi : m.Finds i) (hd : m.stack.length ≤ 12)
    (ho : m.obstacle? i = some e) : m.Cause e := by
  cases i with
  | ret =>
    rw [obstacle?] at ho
    split at ho
    · rename_i hs
      cases ho
      exact .noCall hi (List.isEmpty_iff.mp hs)
    · cases ho
  | call t =>
    rw [obstacle?] at ho
    split at ho
    · cases ho
    · rename_i hs
      cases ho
      exact .noSlot hi (Nat.le_antisymm hd (Nat.not_lt.mp hs))
  | draw x y rows =>
    obtain ⟨h, rfl⟩ := Memory.overrun?_eq_some_iff.mp ho
    exact .draw hi h
  | writeDecimal x =>
    obtain ⟨h, rfl⟩ := Memory.overrun?_eq_some_iff.mp ho
    exact .writeDecimal hi h
  | save x =>
    obtain ⟨h, rfl⟩ := Memory.overrun?_eq_some_iff.mp ho
    exact .save hi h
  | restore x =>
    obtain ⟨h, rfl⟩ := Memory.overrun?_eq_some_iff.mp ho
    exact .restore hi h
  | _ => cases ho

/-- What is reported is on the list. -/
theorem cause_of_fault? (hx : m.awaiting = none) (hd : m.stack.length ≤ 12)
    (hf : m.fault? = some e) : m.Cause e := by
  rw [fault?, hx] at hf
  by_cases hle : m.pc.toNat + 2 ≤ size
  · cases hn : m.next with
    | ok p =>
      rw [hn] at hf
      exact cause_of_obstacle (finds_of_next hn) hd hf
    | error d =>
      have hi : ∀ i : Instruction, i.code ≠ m.wordThere := by
        intro i hc
        rw [Finds.next_eq ⟨hle, hc⟩] at hn
        cases hn
      rw [next_of_noInstruction hle hi] at hf
      cases hf
      exact .noInstruction hle hi
  · rw [next_of_noWord (Nat.not_le.mp hle)] at hf
    cases hf
    exact .noWord (Nat.not_le.mp hle)

/-! ## Outcomes -/

/-- While a key is awaited the keys alone decide. -/
theorem outcome_of_awaiting {x : Register} (hx : m.awaiting = some x) (h : σ) :
    ((m.step h).event.outcome = .blocked ∧ ∀ k, (Host.keys h).1.isDown k = false)
      ∨ ((m.step h).event.outcome = .done ∧ ∃ k, (Host.keys h).1.isDown k = true) := by
  cases m.stepCases h with
  | blocked _ hk hs =>
    rw [hs]
    exact .inl ⟨rfl, (Keypad.lowest?_eq_none_iff _).mp hk⟩
  | keyStored _ hk hs =>
    rw [hs]
    exact .inr ⟨rfl, _, ((Keypad.lowest?_eq_some_iff _ _).mp hk).1⟩
  | unreadable hx' | refused hx' | executed hx' =>
    rw [hx] at hx'
    cases hx'

theorem outcome_ne_blocked (hx : m.awaiting = none) (h : σ) :
    (m.step h).event.outcome ≠ .blocked := by
  cases m.stepCases h with
  | blocked hx' | keyStored hx' =>
    rw [hx] at hx'
    cases hx'
  | unreadable _ _ hs | refused _ _ _ hs | executed _ _ _ hs =>
    rw [hs]
    nofun

end Machine

/-- A step carries out the instruction that is found, if nothing stands in its way. -/
theorem Session.step_of_finds {t : Session size σ} {i : Instruction}
    (hx : t.machine.awaiting = none) (hi : t.machine.Finds i)
    (ho : t.machine.obstacle? i = none) :
    t.step.event = .executed i.toWord i
      ∧ t.after .step = ⟨(t.machine.perform t.host i).1, (t.machine.perform t.host i).2⟩ :=
  Session.step_of_next hx hi.next_eq ho

/-- A step that succeeds has found an instruction, and nothing stood in its way. -/
theorem Session.exists_finds {t : Session size σ} (hx : t.machine.awaiting = none)
    (hd : t.step.event.outcome = .done) :
    ∃ i, t.machine.Finds i ∧ t.machine.obstacle? i = none := by
  change (t.machine.step t.host).event.outcome = _ at hd
  cases t.machine.stepCases t.host with
  | executed _ hn ho _ => exact ⟨_, Machine.finds_of_next hn, ho⟩
  | blocked hx' | keyStored hx' =>
    rw [hx] at hx'
    cases hx'
  | unreadable _ _ hs | refused _ _ _ hs =>
    rw [hs] at hd
    cases hd

/--
**A step fails for a cause on the list, and for every cause on it.**

`t` is a session that some requests lead to from a load. If a key is awaited there, a
step is in vain exactly when no key is down, and otherwise succeeds. If not, it is
never in vain. It fails with `e` exactly when there is a cause for `e`, and succeeds
exactly when there is no cause at all.
-/
theorem step_fails_iff_cause {program : Array UInt8} {s t : Session size σ}
    (hm : Machine.load size program = .ok s.machine) (rs : List (Request σ))
    (ht : t = s.requests rs) :
    (∀ x, t.machine.awaiting = some x →
        (t.step.event.outcome = .blocked ↔ ∀ k, (Host.keys t.host).1.isDown k = false)
          ∧ (t.step.event.outcome = .done ↔ ∃ k, (Host.keys t.host).1.isDown k = true)
          ∧ ∀ e, t.step.event.outcome ≠ .failed e)
      ∧ (t.machine.awaiting = none →
        t.step.event.outcome ≠ .blocked
          ∧ (∀ e, t.step.event.outcome = .failed e ↔ t.machine.Cause e)
          ∧ (t.step.event.outcome = .done ↔ ∀ e, ¬ t.machine.Cause e)) := by
  constructor
  · intro x hx
    rcases Machine.outcome_of_awaiting hx t.host with ⟨ho, hk⟩ | ⟨ho, k, hk⟩
    · change t.step.event.outcome = _ at ho
      rw [ho]
      refine ⟨iff_of_true rfl hk, iff_of_false nofun ?_, nofun⟩
      rintro ⟨k, hk'⟩
      rw [hk k] at hk'
      cases hk'
    · change t.step.event.outcome = _ at ho
      rw [ho]
      refine ⟨iff_of_false nofun fun hn => ?_, iff_of_true rfl ⟨k, hk⟩, nofun⟩
      rw [hn k] at hk
      cases hk
  · intro hx
    have hd : t.machine.stack.length ≤ 12 := by
      rw [ht]
      exact ((history_trail s rs).wellFormed (Machine.wellFormed_of_load hm)).depth_le
    have hb : t.step.event.outcome ≠ .blocked := Machine.outcome_ne_blocked hx t.host
    have hf : ∀ e, t.step.event.outcome = .failed e ↔ t.machine.Cause e := fun e =>
      Machine.outcome_eq_failed_iff.trans
        ⟨Machine.cause_of_fault? hx hd, fun hc => hc.fault?_eq hx⟩
    refine ⟨hb, hf, fun ho e hc => ?_, fun hn => ?_⟩
    · rw [(hf e).mpr hc] at ho
      cases ho
    · cases ho : t.step.event.outcome with
      | done => rfl
      | blocked => exact absurd ho hb
      | failed e => exact absurd ((hf e).mp ho) (hn e)

/-- Two registers do not fit behind the last address but one. -/
theorem step_fails_iff_cause_at_last_address :
    ∃ s t : Session 4096 Headless,
      Machine.load 4096 #[0xAF, 0xFF, 0xF1, 0x55] = .ok s.machine
        ∧ t = s.requests [.move .step]
        ∧ t.machine.awaiting = none
        ∧ t.machine.index = 4095
        ∧ t.step.event.outcome = .failed (.addressOutOfRange 4096) := by
  have hd : Layout.displayStart 4096 = 3840 := Layout.displayStart_eq _
  obtain ⟨s, hm, h0⟩ := Session.exists_atWord 4096 #[0xAF, 0xFF, 0xF1, 0x55] Headless.mk (by decide)
  obtain ⟨-, a0, h1⟩ := Session.step_of_isStraight (i := .setIndex 0xFFF) h0 (by omega) (by decide)
    rfl rfl
  have hindex : (s.after .step).machine.index = 4095 := by
    rw [a0]
    rfl
  have hi : (s.after .step).machine.Finds (.save 1) := Machine.finds_of_next
    (h1.next (by omega) (by decide) rfl)
  have hc : (s.after .step).machine.Cause (.addressOutOfRange 4096) := by
    have h := Machine.Cause.save hi (by rw [hindex]; decide)
    rw [hindex] at h
    exact h
  have ho := ((step_fails_iff_cause hm [.move .step] rfl).2 h1.awaiting_eq).2.1 _ |>.mpr hc
  exact ⟨s, _, hm, rfl, h1.awaiting_eq, hindex, ho⟩

end ChipEight
