import ChipEight.Proofs.FaultCauses

/-!
# The first byte that is missing

A step has to have the two bytes of its word. An instruction that reaches memory through
the index register has to have so many more from there on. `Machine.Needs` lists these
addresses one by one, and `Machine.FirstMissing` is the lowest of them that memory does
not have.

What the machine compares is the end of a stretch with the end of memory. This comes to
the same (`Needs.firstMissing`): a stretch has no gaps, so the first address that is
missing is where memory ends, or else where the stretch begins. There is one exception.
A sprite without rows needs nothing, and yet it is refused where the index register is
already beyond the end of memory.
-/

namespace ChipEight

variable {size : Nat} {σ : Type} [Host σ]

namespace Machine

/-- The addresses that a step has to access which finds no key awaited. -/
inductive Needs (m : Machine size) : Nat → Prop where
  /-- The two bytes of the word. -/
  | word {k : Nat} (hk : k < 2) : Needs m (m.pc.toNat + k)
  /-- One byte for each row of the sprite. -/
  | draw {x y : Register} {rows : Nibble} {k : Nat} (hi : m.Finds (.draw x y rows))
      (hk : k < rows.val) : Needs m (m.index.toNat + k)
  /-- One for each of three digits. -/
  | writeDecimal {x : Register} {k : Nat} (hi : m.Finds (.writeDecimal x)) (hk : k < 3) :
      Needs m (m.index.toNat + k)
  /-- One for each register up to `x`. -/
  | save {x : Register} {k : Nat} (hi : m.Finds (.save x)) (hk : k < x.val + 1) :
      Needs m (m.index.toNat + k)
  /-- The same, where they are read. -/
  | restore {x : Register} {k : Nat} (hi : m.Finds (.restore x)) (hk : k < x.val + 1) :
      Needs m (m.index.toNat + k)

/-- Of the addresses that a step needs and memory does not have, `a` is the lowest. -/
structure FirstMissing (m : Machine size) (a : Nat) : Prop where
  needed : m.Needs a
  missing : size ≤ a
  first : ∀ b, m.Needs b → size ≤ b → a ≤ b

variable {m : Machine size} {a b n : Nat} {i j : Instruction}

theorem FirstMissing.eq (ha : m.FirstMissing a) (hb : m.FirstMissing b) : a = b :=
  Nat.le_antisymm (ha.first b hb.needed hb.missing) (hb.first a ha.needed ha.missing)

/-- What an instruction needs through the index register is the stretch that is looked at. -/
theorem needs_of_span? (hi : m.Finds i) (hs : i.span? = some n) {k : Nat} (hk : k < n) :
    m.Needs (m.index.toNat + k) := by
  cases i with
  | draw x y rows =>
    cases hs
    exact .draw hi hk
  | writeDecimal x =>
    cases hs
    exact .writeDecimal hi hk
  | save x =>
    cases hs
    exact .save hi hk
  | restore x =>
    cases hs
    exact .restore hi hk
  | _ => cases hs

/-- Anything else that is needed belongs to the word. -/
theorem Needs.cases_span? (h : m.Needs b) :
    (∃ k < 2, b = m.pc.toNat + k)
      ∨ ∃ i n, m.Finds i ∧ i.span? = some n ∧ ∃ k < n, b = m.index.toNat + k := by
  cases h with
  | word hk => exact .inl ⟨_, hk, rfl⟩
  | draw hi hk | writeDecimal hi hk | save hi hk | restore hi hk =>
    exact .inr ⟨_, _, hi, rfl, _, hk, rfl⟩

/-! ## Where memory ends -/

theorem firstMissing_of_word (h : size < m.pc.toNat + 2) :
    m.FirstMissing (max m.pc.toNat size) := by
  obtain ⟨k, hk, e⟩ : ∃ k < 2, max m.pc.toNat size = m.pc.toNat + k :=
    ⟨max m.pc.toNat size - m.pc.toNat, by omega, by omega⟩
  refine ⟨e ▸ .word hk, Nat.le_max_right _ _, fun b hb hs => ?_⟩
  rcases hb.cases_span? with ⟨j, -, rfl⟩ | ⟨i, n, hi, -⟩
  · omega
  · -- no instruction is found in half a word
    have := hi.inMemory
    omega

theorem firstMissing_of_span? (hi : m.Finds i) (hs : i.span? = some n) (hn : 0 < n)
    (h : size < m.index.toNat + n) : m.FirstMissing (max m.index.toNat size) := by
  obtain ⟨k, hk, e⟩ : ∃ k < n, max m.index.toNat size = m.index.toNat + k :=
    ⟨max m.index.toNat size - m.index.toNat, by omega, by omega⟩
  refine ⟨e ▸ needs_of_span? hi hs hk, Nat.le_max_right _ _, fun b hb hle => ?_⟩
  rcases hb.cases_span? with ⟨j, hj, rfl⟩ | ⟨i', n', -, -, j, -, rfl⟩
  · have := hi.inMemory
    omega
  · omega

/-- **Where a byte is missing the step fails for the first one.** -/
theorem Needs.firstMissing (hb : m.Needs b) (hs : size ≤ b) :
    ∃ a, m.FirstMissing a ∧ m.Cause (.addressOutOfRange a) := by
  cases hb with
  | @word k hk =>
    have h : size < m.pc.toNat + 2 := by omega
    exact ⟨_, firstMissing_of_word h, .noWord h⟩
  | @draw x y rows k hi hk =>
    have h : size < m.index.toNat + rows.val := by omega
    exact ⟨_, firstMissing_of_span? hi rfl (by omega) h, .draw hi h⟩
  | @writeDecimal x k hi hk =>
    have h : size < m.index.toNat + 3 := by omega
    exact ⟨_, firstMissing_of_span? hi rfl (by omega) h, .writeDecimal hi h⟩
  | @save x k hi hk =>
    have h : size < m.index.toNat + (x.val + 1) := by omega
    exact ⟨_, firstMissing_of_span? hi rfl (by omega) h, .save hi h⟩
  | @restore x k hi hk =>
    have h : size < m.index.toNat + (x.val + 1) := by omega
    exact ⟨_, firstMissing_of_span? hi rfl (by omega) h, .restore hi h⟩

/-- The one cause for which nothing is missing. -/
def EmptySpriteBeyond (m : Machine size) : Prop :=
  (∃ x y rows, m.Finds (.draw x y rows) ∧ rows.val = 0) ∧ size < m.index.toNat

/-- Such a step needs its word and no more, and that has been read. -/
theorem EmptySpriteBeyond.lt_of_needs (h : m.EmptySpriteBeyond) (hb : m.Needs b) : b < size := by
  obtain ⟨⟨x, y, rows, hi, h0⟩, -⟩ := h
  rcases hb.cases_span? with ⟨k, hk, rfl⟩ | ⟨i', n, hi', hs, k, hk, -⟩
  · have := hi.inMemory
    omega
  · rw [hi'.eq hi] at hs
    cases hs
    rw [h0] at hk
    exact absurd hk (Nat.not_lt_zero k)

theorem Cause.missing_or_empty (hc : m.Cause (.addressOutOfRange a)) :
    m.FirstMissing a ∨ (m.EmptySpriteBeyond ∧ a = m.index.toNat) := by
  cases hc with
  | noWord h => exact .inl (firstMissing_of_word h)
  | @draw x y rows hi h =>
    rcases Nat.eq_zero_or_pos rows.val with h0 | h0
    · have hlt : size < m.index.toNat := by rwa [h0] at h
      exact .inr ⟨⟨⟨x, y, rows, hi, h0⟩, hlt⟩, Nat.max_eq_left (Nat.le_of_lt hlt)⟩
    · exact .inl (firstMissing_of_span? hi rfl h0 h)
  | writeDecimal hi h => exact .inl (firstMissing_of_span? hi rfl (by omega) h)
  | save hi h | restore hi h => exact .inl (firstMissing_of_span? hi rfl (by omega) h)

theorem EmptySpriteBeyond.cause (h : m.EmptySpriteBeyond) :
    m.Cause (.addressOutOfRange m.index.toNat) := by
  obtain ⟨⟨x, y, rows, hi, -⟩, hlt⟩ := h
  have hc := Cause.draw hi (Nat.lt_of_lt_of_le hlt (Nat.le_add_right _ _))
  rw [Nat.max_eq_left (Nat.le_of_lt hlt)] at hc
  exact hc

end Machine

/-- A program that first of all sets the index register gets to its second instruction. -/
theorem Session.after_setIndex {program : Array UInt8} {s : Session size σ} {target : Address}
    {i : Instruction} (hs : s.machine.AtWord program 0) (hd : 516 ≤ Layout.displayStart size)
    (h0 : Instruction.decode (wordAt program 0) = .ok (.setIndex target))
    (h1 : Instruction.decode (wordAt program 1) = .ok i) :
    (s.after .step).machine.awaiting = none
      ∧ (s.after .step).machine.index = UInt16.ofNat target.val
      ∧ (s.after .step).machine.Finds i := by
  obtain ⟨-, ha, hw⟩ := Session.step_of_isStraight hs (by omega) (by decide) h0 rfl
  refine ⟨hw.awaiting_eq, ?_, Machine.finds_of_next (hw.next (by omega) (by decide) h1)⟩
  rw [ha]
  rfl

/--
**A step fails for an address if a byte is missing, and then for the first one.**

`t` is a session that some requests lead to from a load, with no key awaited. The step
fails for the address `a` exactly when `a` is the first of the addresses it needs that
memory does not have, or else when `a` is the index register, which is beyond the end of
memory, and the instruction draws a sprite without rows. There is a first address as soon
as any is missing; in the other case none is.
-/
theorem address_error_iff_missing {program : Array UInt8} {s t : Session size σ}
    (hm : Machine.load size program = .ok s.machine) (rs : List (Request σ))
    (ht : t = s.requests rs) (hx : t.machine.awaiting = none) :
    (∀ a, t.step.event.outcome = .failed (.addressOutOfRange a) ↔
        t.machine.FirstMissing a
          ∨ (t.machine.EmptySpriteBeyond ∧ a = t.machine.index.toNat))
      ∧ ((∃ a, t.machine.FirstMissing a) ↔ ∃ b, t.machine.Needs b ∧ size ≤ b)
      ∧ (t.machine.EmptySpriteBeyond → ∀ b, t.machine.Needs b → b < size) := by
  have hd : t.machine.stack.length ≤ 12 := by
    rw [ht]
    exact ((history_trail s rs).wellFormed (Machine.wellFormed_of_load hm)).depth_le
  refine ⟨fun a => ?_, ⟨?_, ?_⟩, fun h b hb => h.lt_of_needs hb⟩
  · have hcause : t.step.event.outcome = .failed (.addressOutOfRange a)
        ↔ t.machine.Cause (.addressOutOfRange a) :=
      Machine.outcome_eq_failed_iff.trans
        ⟨Machine.cause_of_fault? hx hd, fun hc => hc.fault?_eq hx⟩
    rw [hcause]
    constructor
    · exact Machine.Cause.missing_or_empty
    · rintro (hfirst | ⟨hempty, rfl⟩)
      · -- the step fails for some first address, and there is only one
        obtain ⟨b, hb, hc⟩ := hfirst.needed.firstMissing hfirst.missing
        rw [hfirst.eq hb]
        exact hc
      · exact hempty.cause
  · rintro ⟨a, ha⟩
    exact ⟨a, ha.needed, ha.missing⟩
  · rintro ⟨b, hb, hs⟩
    obtain ⟨a, ha, -⟩ := hb.firstMissing hs
    exact ⟨a, ha⟩

/-- The third row of a sprite at the last address but one is the first that is missing. -/
theorem address_error_iff_missing_third_row :
    ∃ s t : Session 4096 Headless, Machine.load 4096 #[0xAF, 0xFE, 0xD0, 0x03] = .ok s.machine
      ∧ t = s.requests [.move .step]
      ∧ t.machine.awaiting = none
      ∧ t.machine.Finds (.draw 0 0 3)
      ∧ t.machine.index = 4094
      ∧ t.machine.FirstMissing 4096
      ∧ t.step.event.outcome = .failed (.addressOutOfRange 4096) := by
  have hd : Layout.displayStart 4096 = 3840 := Layout.displayStart_eq _
  obtain ⟨s, hm, h0⟩ := Session.exists_atWord 4096 #[0xAF, 0xFE, 0xD0, 0x03] Headless.mk (by decide)
  obtain ⟨hx, hindex, hi⟩ := Session.after_setIndex h0 (by omega) rfl rfl
  have hfirst := Machine.firstMissing_of_span? hi rfl (by decide) (by rw [hindex]; decide)
  rw [hindex] at hfirst
  have ho := ((address_error_iff_missing hm [.move .step] rfl hx).1 4096).mpr (.inl hfirst)
  exact ⟨s, _, hm, rfl, hx, hi, hindex, hfirst, ho⟩

/-- A sprite without rows is refused where the index register is beyond memory, although
everything that is needed is there. -/
theorem address_error_with_nothing_missing :
    ∃ s t : Session 1000 Headless, Machine.load 1000 #[0xAF, 0xFF, 0xD0, 0x00] = .ok s.machine
      ∧ t = s.requests [.move .step]
      ∧ t.machine.awaiting = none
      ∧ (∀ b, t.machine.Needs b → b < 1000)
      ∧ t.step.event.outcome = .failed (.addressOutOfRange 4095) := by
  have hd : Layout.displayStart 1000 = 744 := Layout.displayStart_eq _
  obtain ⟨s, hm, h0⟩ := Session.exists_atWord 1000 #[0xAF, 0xFF, 0xD0, 0x00] Headless.mk (by decide)
  obtain ⟨hx, hindex, hi⟩ := Session.after_setIndex h0 (by omega) rfl rfl
  have hempty : (s.after .step).machine.EmptySpriteBeyond :=
    ⟨⟨0, 0, 0, hi, rfl⟩, by rw [hindex]; decide⟩
  have hc := hempty.cause
  rw [hindex] at hc
  exact ⟨s, _, hm, rfl, hx, fun b => hempty.lt_of_needs,
    Machine.outcome_eq_failed_iff.mpr (hc.fault?_eq hx)⟩

end ChipEight
