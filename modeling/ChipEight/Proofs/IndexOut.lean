import ChipEight.Proofs.StraightLine

/-!
# An index register that has left memory

An addition to the index register sets the flag when the sum is no address. The
register cannot come back from there by more additions: it stops at 65535 rather
than wrap around, and no other instruction changes it, except the two that give it
a new value altogether.

`Machine.IndexOut` is what is left to know of it, and `obstacle?_of_indexOut` says
what it means for an instruction that reaches memory through it. In a memory of
65535 bytes or fewer no such instruction is ever carried out again. A greater one
has bytes from 65535 on, where the register stops. There an instruction is refused
only if it needs more bytes than there are.
-/

namespace ChipEight

variable {size : Nat} {σ : Type} [Host σ]

/-- Whether an instruction gives the index register a value that is not counted from its last. -/
def Instruction.setsIndex : Instruction → Bool
  | .setIndex _ | .pointGlyph _ => true
  | _ => false

namespace Machine

/-- The index register is beyond memory, or at the last address that it can hold. -/
def IndexOut (m : Machine size) : Prop := min size 65535 ≤ m.index.toNat

/-- Which instructions an index register that is out still lets through. -/
theorem obstacle?_of_indexOut {m : Machine size} (h : m.IndexOut) {i : Instruction} {n : Nat}
    (hs : i.span? = some n) (hn : 1 ≤ n) :
    m.obstacle? i =
      if size < 65535 + n then some (.addressOutOfRange (max m.index.toNat size)) else none := by
  have hmax := m.index.toNat_lt
  unfold IndexOut at h
  rw [obstacle?_of_span? m hs, Memory.overrun?]
  by_cases hsize : size < 65535 + n
  · rw [if_pos hsize, if_neg (by omega)]
  · rw [if_neg hsize, if_pos (by omega)]

/-- An addition that sets the flag has left memory. -/
theorem indexOut_of_flag {m : Machine size} (g : σ) {x : Register}
    (hf : (m.perform g (.addIndex x)).1.v .flag = 1) :
    (m.perform g (.addIndex x)).1.IndexOut := by
  have hv : (m.perform g (.addIndex x)).1.v .flag
      = (decide (min size 65536 ≤ m.index.toNat + (m.v x).toNat)).toUInt8 := by
    rw [v_perform]
    exact if_pos rfl
  have hsum : min size 65536 ≤ m.index.toNat + (m.v x).toNat := by
    rw [hv] at hf
    refine Decidable.byContradiction fun hlt => ?_
    rw [decide_eq_false hlt] at hf
    cases hf
  show min size 65535 ≤ _
  rw [index_perform]
  dsimp only
  rw [UInt16.toNat_ofNat']
  omega

end Machine

namespace Moment

/-- No move brings the index register back that does not set it. -/
theorem indexOut_after (x : Moment size σ) (h : x.before.machine.IndexOut)
    (hx : ∀ i, x.executed? = some i → i.setsIndex = false) : x.after.machine.IndexOut := by
  cases x.effect with
  | keyStored _ _ hm | ticked _ _ hm | still _ _ hm => rw [hm]; exact h
  | @executed _ i hi _ _ _ hm =>
    have hset := hx i hi
    have hmax := x.before.machine.index.toNat_lt
    unfold Machine.IndexOut at h ⊢
    rw [hm, Machine.index_perform]
    cases i with
    | setIndex t | pointGlyph r => cases hset
    | addIndex r =>
      dsimp only
      rw [UInt16.toNat_ofNat']
      omega
    | _ => exact h

end Moment

theorem History.indexOut {s t : Session size σ} {xs : List (Moment size σ)} (h : History s xs t)
    (hs : s.machine.IndexOut)
    (hx : ∀ y ∈ xs, ∀ i, y.executed? = some i → i.setsIndex = false) : t.machine.IndexOut := by
  induction h with
  | nil => exact hs
  | @cons s _ xs mv _ ih =>
    refine ih (Moment.indexOut_after ⟨s, mv⟩ hs (hx _ List.mem_cons_self)) ?_
    intro y hy
    exact hx y (List.mem_cons_of_mem _ hy)

/-! ## A program that overshoots -/

/-- Sets V0 to 255 and the index register to 4095, adds the one to the other until the flag is set,
and then writes V0. -/
def overshoot : Array UInt8 :=
  #[0x60, 0xFF, 0xAF, 0xFF, 0xF0, 0x1E, 0x3F, 0x01, 0x12, 0x04, 0xF0, 0x55]

section Overshoot

/-- Before an addition, with the index register at `n`. -/
structure BeforeAddition (s : Session size σ) (n : Nat) : Prop where
  atWord : s.machine.AtWord overshoot 2
  v_eq : s.machine.v 0 = 255
  index_eq : s.machine.index.toNat = n

variable {s : Session size σ} {n : Nat}

/-- What an addition leads to. -/
theorem BeforeAddition.add (h : BeforeAddition s n) (hd : 524 ≤ Layout.displayStart size) :
    s.step.event = .executed 0xF01E (.addIndex 0)
      ∧ (s.after .step).machine.AtWord overshoot 3
      ∧ (s.after .step).machine.v 0 = 255
      ∧ (s.after .step).machine.v .flag = (decide (min size 65536 ≤ n + 255)).toUInt8
      ∧ (s.after .step).machine.index.toNat = min (n + 255) 65535 := by
  obtain ⟨h1, h2⟩ := Session.step_of_atWord (i := .addIndex 0) h.atWord (by omega) (by decide)
    rfl rfl
  have hv : (s.machine.v 0).toNat = 255 := by rw [h.v_eq]; rfl
  rw [h2]
  refine ⟨h1, h.atWord.perform _ rfl, ?_, ?_, ?_⟩
  · rw [← h.v_eq]
    exact Vector.getElem_set_ne (by decide) (by decide) (by decide)
  · rw [Machine.v_perform, ← hv, ← h.index_eq]
    exact if_pos rfl
  · rw [Machine.index_perform]
    dsimp only
    rw [hv, h.index_eq, UInt16.toNat_ofNat']
    omega

/-- An addition that does not set the flag is made again. -/
theorem BeforeAddition.again (h : BeforeAddition s n) (hd : 524 ≤ Layout.displayStart size)
    (hn : n + 255 < min size 65536) :
    BeforeAddition (s.requests (List.replicate 3 (.move .step))) (n + 255) := by
  obtain ⟨_, h1, h2, h3, h4⟩ := h.add hd
  have e1 := (Session.step_of_atWord (i := .skipIfByte 15 1) h1 (by omega) (by decide) rfl rfl).2
  obtain ⟨t, ht⟩ : ∃ t, t = s.after .step := ⟨_, rfl⟩
  rw [← ht] at h1 h2 h3 h4 e1
  have h5 : (t.after .step).machine.AtWord overshoot 4 := by
    rw [e1]
    refine ⟨?_, h1.awaiting_eq, h1.low_eq, h1.programEnd_eq⟩
    change t.machine.v 15 = _ at h3
    rw [Machine.pc_perform]
    dsimp only
    rw [h3, decide_eq_false (by omega), h1.pc_eq]
    rfl
  have e2 := (Session.step_of_atWord (i := .jump 0x204) h5 (by omega) (by decide) rfl rfl).2
  show BeforeAddition (((s.after .step).after .step).after .step) _
  rw [← ht, e2]
  refine ⟨⟨rfl, h5.awaiting_eq, h5.low_eq, h5.programEnd_eq⟩, ?_, ?_⟩
  · show (t.after .step).machine.v 0 = 255
    rw [e1]
    exact h2
  · show (t.after .step).machine.index.toNat = _
    rw [e1]
    show t.machine.index.toNat = _
    omega

theorem BeforeAddition.iterate (h : BeforeAddition s n) (hd : 524 ≤ Layout.displayStart size)
    (k : Nat) (hk : n + 255 * k < min size 65536) :
    BeforeAddition (s.requests (List.replicate (3 * k) (.move .step))) (n + 255 * k) := by
  induction k with
  | zero => exact h
  | succ k ih =>
    rw [Nat.mul_succ, ← Nat.add_assoc] at hk
    rw [Nat.mul_succ, Nat.mul_succ, ← Nat.add_assoc, ← List.replicate_append_replicate,
      Session.requests_append]
    exact (ih (Nat.lt_of_le_of_lt (Nat.le_add_right _ _) hk)).again hd hk

/-- An addition that sets it is the last. -/
theorem BeforeAddition.leave (h : BeforeAddition s n) (hd : 524 ≤ Layout.displayStart size)
    (hn : min size 65536 ≤ n + 255) :
    (s.after .step).machine.v .flag = 1
      ∧ (s.after .step).step.event = .executed 0x3F01 (.skipIfByte 15 1)
      ∧ ((s.after .step).after .step).machine.AtWord overshoot 5
      ∧ ((s.after .step).after .step).machine.index.toNat = min (n + 255) 65535 := by
  obtain ⟨_, h1, _, h2, h3⟩ := h.add hd
  rw [decide_eq_true hn] at h2
  obtain ⟨e1, e2⟩ := Session.step_of_atWord (i := .skipIfByte 15 1) h1 (by omega) (by decide)
    rfl rfl
  rw [e2]
  refine ⟨h2, e1, ⟨?_, h1.awaiting_eq, h1.low_eq, h1.programEnd_eq⟩, h3⟩
  change (s.after .step).machine.v 15 = 1 at h2
  rw [Machine.pc_perform]
  dsimp only
  rw [h2, h1.pc_eq]
  rfl

theorem beforeAddition_of_load (hd : 524 ≤ Layout.displayStart size)
    (hm : Machine.load size overshoot = .ok s.machine) :
    BeforeAddition (s.requests (List.replicate 2 (.move .step))) 4095 := by
  have h0 : s.machine.AtWord overshoot 0 := Machine.atWord_of_load hm
  have e0 := (Session.step_of_atWord (i := .set 0 0xFF) h0 (by omega) (by decide) rfl rfl).2
  have h1 : (s.after .step).machine.AtWord overshoot 1 := by
    rw [e0]; exact h0.perform _ rfl
  have e1 := (Session.step_of_atWord (i := .setIndex 0xFFF) h1 (by omega) (by decide) rfl rfl).2
  show BeforeAddition ((s.after .step).after .step) 4095
  rw [e1]
  refine ⟨h1.perform _ rfl, ?_, rfl⟩
  rw [e0]
  exact Vector.getElem_set_self _

end Overshoot

/-! ## Accesses -/

/--
**Behind an addition that left memory, no access goes through that needs more
bytes than there are from 65535 on.**

Let a step add to the index register and set the flag, and let anything happen
then that does not set the register anew. Take a step that finds an instruction
which needs `n` bytes at the index register. If memory has fewer than `65535 + n`
bytes, and so always if it has no more than 65535, the instruction is refused and
nothing has changed. If it has as many, the instruction is carried out.
-/
theorem access_refused_of_flag {s : Session size σ} {word : UInt16} {r : Register}
    (hc : s.step.event = .executed word (.addIndex r))
    (hf : (s.after .step).machine.v .flag = 1) (rs : List (Request σ))
    (xs : List (Moment size σ)) (x : Moment size σ) (ys : List (Moment size σ))
    (ht : (s.after .step).trail rs = xs ++ x :: ys)
    (hx : ∀ y ∈ xs, ∀ i, y.executed? = some i → i.setsIndex = false)
    {w : UInt16} {i : Instruction} {n : Nat} (hmv : x.move = .step)
    (ha : x.before.machine.awaiting = none) (hn : x.before.machine.next = .ok (w, i))
    (hs : i.span? = some n) (h1 : 1 ≤ n) :
    (size < 65535 + n →
        x.before.step.event.outcome
            = .failed (.addressOutOfRange (max x.before.machine.index.toNat size))
          ∧ x.after = x.before)
      ∧ (65535 + n ≤ size → x.executed? = some i) := by
  have hout : (s.after .step).machine.IndexOut := by
    obtain ⟨_, _, _, hm⟩ := Session.of_executed hc
    rw [hm] at hf ⊢
    exact Machine.indexOut_of_flag s.host hf
  have ho := Machine.obstacle?_of_indexOut ((history_of_trail ht).indexOut hout hx) hs h1
  obtain ⟨t, mv⟩ := x
  cases hmv
  constructor
  · intro hsize
    rw [if_pos hsize] at ho
    have hst := Session.step_of_obstacle (s := t) ha hn ho
    rw [Moment.after, Session.after, hst]
    exact ⟨rfl, rfl⟩
  · intro hsize
    rw [if_neg (by omega)] at ho
    rw [Moment.executed?, (Session.step_of_next (s := t) ha hn ho).1]
    rfl

/-- In 4096 bytes the first addition leaves memory, and V0 is not written. -/
theorem access_refused_of_flag_overshoot :
    ∃ s t : Session 4096 Headless, Machine.load 4096 overshoot = .ok s.machine
      ∧ t = s.requests (List.replicate 2 (.move .step))
      ∧ t.step.event = .executed 0xF01E (.addIndex 0)
      ∧ (t.after .step).machine.v .flag = 1
      ∧ ((t.after .step).after .step).step.event.outcome = .failed (.addressOutOfRange 4350)
      ∧ ((t.after .step).after .step).after .step = (t.after .step).after .step := by
  have hd : Layout.displayStart 4096 = 3840 := Layout.displayStart_eq _
  let s : Session 4096 Headless := ⟨.fresh 4096 overshoot, ⟨⟩⟩
  have hm : Machine.load 4096 overshoot = .ok s.machine :=
    Machine.load_eq_ok_iff.mpr ⟨by decide, rfl⟩
  obtain ⟨t, ht⟩ : ∃ t, t = s.requests (List.replicate 2 (.move .step)) := ⟨_, rfl⟩
  have h : BeforeAddition t 4095 := ht ▸ beforeAddition_of_load (by omega) hm
  have hadd := (h.add (by omega)).1
  obtain ⟨hf, hskip, h5, hindex⟩ := h.leave (by omega) (by decide)
  have hn := h5.next (i := .save 0) (by omega) (by decide) rfl
  have hx : ∀ y ∈ [(⟨t.after .step, .step⟩ : Moment 4096 Headless)], ∀ i,
      y.executed? = some i → i.setsIndex = false := by
    intro y hy i hi
    rw [List.mem_singleton.mp hy, Moment.executed?, hskip] at hi
    cases hi
    rfl
  obtain ⟨h1, h2⟩ := (access_refused_of_flag hadd hf [.move .step, .move .step]
    [⟨t.after .step, .step⟩] ⟨(t.after .step).after .step, .step⟩ []
    rfl hx rfl h5.awaiting_eq hn rfl (by decide)).1 (by decide)
  rw [hindex] at h1
  exact ⟨s, t, hm, ht, hadd, hf, h1, h2⟩

/-- In 65536 bytes the last addition stops at the last of them, and V0 is written there. -/
theorem access_goes_through_at_last_address :
    ∃ s t : Session 65536 Headless, Machine.load 65536 overshoot = .ok s.machine
      ∧ t = s.requests (List.replicate 722 (.move .step))
      ∧ t.step.event = .executed 0xF01E (.addIndex 0)
      ∧ (t.after .step).machine.v .flag = 1
      ∧ (t.after .step).step.event = .executed 0x3F01 (.skipIfByte 15 1)
      ∧ ((t.after .step).after .step).step.event = .executed 0xF055 (.save 0) := by
  have hd : Layout.displayStart 65536 = 65280 := Layout.displayStart_eq _
  let s : Session 65536 Headless := ⟨.fresh 65536 overshoot, ⟨⟩⟩
  have hm : Machine.load 65536 overshoot = .ok s.machine :=
    Machine.load_eq_ok_iff.mpr ⟨by decide, rfl⟩
  -- two steps before the loop, and three for each addition that does not set the flag
  obtain ⟨t, ht⟩ : ∃ t, t = s.requests (List.replicate (2 + 3 * 240) (.move .step)) := ⟨_, rfl⟩
  have h : BeforeAddition t (4095 + 255 * 240) := by
    rw [ht, ← List.replicate_append_replicate, Session.requests_append]
    exact (beforeAddition_of_load (by omega) hm).iterate (by omega) 240 (by decide)
  obtain ⟨hf, hskip, h5, hindex⟩ := h.leave (by omega) (by decide)
  have ho : ((t.after .step).after .step).machine.obstacle? (.save 0) = none := by
    rw [Machine.obstacle?_of_span? _ rfl, Memory.overrun?, hindex]
    rfl
  have hsave := Session.step_of_atWord (i := .save 0) h5 (by omega) (by decide) rfl ho
  exact ⟨s, t, hm, ht, (h.add (by omega)).1, hf, hskip, hsave.1⟩

end ChipEight
