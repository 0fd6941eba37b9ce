import ChipEight.Proofs.FaultCauses

/-!
# Carries, borrows and bits that drop out

A register holds eight bits, and a sum or a difference needs nine. What an operation cannot
put into VX it reports in the flag register, so between them the two hold everything: a result
and a flag are as good as the number that was computed. The `_exact` lemmas say this for sums,
differences and both shifts.

Two registers are read and two are written, and they need not be four different ones. VX may
be the flag register, and so may VY, and VX may be VY. Both values are read before anything is
written, and the flag is written last. So the flag is always right, and it is the result that
is lost where there is room for one of them only. `Session.Computes` says what is left in the
registers.
-/

namespace ChipEight

namespace Operation

variable (a b : UInt8)

/-- A carry stands for 256. -/
theorem add_exact :
    (value .add a b).toNat + 256 * (decide (256 ≤ a.toNat + b.toNat)).toNat
      = a.toNat + b.toNat := by
  have ha := a.toNat_lt
  have hb := b.toNat_lt
  rw [value, UInt8.toNat_add]
  by_cases h : 256 ≤ a.toNat + b.toNat
  · rw [decide_eq_true h, Bool.toNat_true]
    omega
  · rw [decide_eq_false h, Bool.toNat_false]
    omega

/-- A borrow stands for 256, and the flag says that there was none. -/
theorem sub_exact :
    (value .sub a b).toNat + b.toNat + 256 * (decide (b ≤ a)).toNat = a.toNat + 256 := by
  have ha := a.toNat_lt
  have hb := b.toNat_lt
  rw [value, UInt8.toNat_sub]
  by_cases h : b ≤ a
  · have hle := UInt8.le_iff_toNat_le.mp h
    rw [decide_eq_true h, Bool.toNat_true]
    omega
  · have hlt : a.toNat < b.toNat := Nat.not_le.mp fun hle => h (UInt8.le_iff_toNat_le.mpr hle)
    rw [decide_eq_false h, Bool.toNat_false]
    omega

/-- The bit that drops out on the right is the last one. -/
theorem shiftRight_exact :
    2 * (value .shiftRight a b).toNat + (decide (a &&& 1 = 1)).toNat = a.toNat := by
  have hlast : (a &&& 1).toNat = a.toNat % 2 := by
    rw [UInt8.toNat_and, UInt8.toNat_one, Nat.and_one_is_mod]
  have hhalf : (a >>> 1).toNat = a.toNat / 2 := by
    rw [UInt8.toNat_shiftRight, UInt8.toNat_one, Nat.shiftRight_eq_div_pow]
  rw [value, hhalf]
  by_cases h : a &&& 1 = 1
  · rw [h, UInt8.toNat_one] at hlast
    rw [decide_eq_true h, Bool.toNat_true]
    omega
  · have hne : a.toNat % 2 ≠ 1 := fun hodd => h (UInt8.toNat_inj.mp (hlast.trans hodd))
    rw [decide_eq_false h, Bool.toNat_false]
    omega

/-- The bit that drops out on the left stands for 256. -/
theorem shiftLeft_exact :
    (value .shiftLeft a b).toNat + 256 * (decide (128 ≤ a)).toNat = 2 * a.toNat := by
  have ha := a.toNat_lt
  have hdouble : (a <<< 1).toNat = 2 * a.toNat % 256 := by
    rw [UInt8.toNat_shiftLeft, UInt8.toNat_one, Nat.shiftLeft_eq, Nat.mul_comm]
  rw [value, hdouble]
  by_cases h : 128 ≤ a
  · have hle : 128 ≤ a.toNat := UInt8.le_iff_toNat_le.mp h
    rw [decide_eq_true h, Bool.toNat_true]
    omega
  · have hlt : a.toNat < 128 := Nat.not_le.mp fun hle => h (UInt8.le_iff_toNat_le.mpr hle)
    rw [decide_eq_false h, Bool.toNat_false]
    omega

end Operation

variable {size : Nat} {σ : Type} [Host σ] {t : Session size σ} {x y : Register}

namespace Session

/-- The next step succeeds and leaves a flag, a result for VX, and the other registers. -/
structure Computes (t : Session size σ) (x : Register) (result flag : Int) : Prop where
  done : t.step.event.outcome = .done
  /-- The flag is always there. -/
  flag_eq : ((t.after .step).machine.v .flag).toNat = flag
  /-- The result is there if it does not belong where the flag is. -/
  result_eq : x ≠ .flag → ((t.after .step).machine.v x).toNat = result
  /-- VY is one of the others, if it is none of the two. -/
  other_eq : ∀ r, r ≠ x → r ≠ .flag → (t.after .step).machine.v r = t.machine.v r

theorem computes_of_finds {op : Operation} {c : Bool} {result flag : Int}
    (hx : t.machine.awaiting = none) (hi : t.machine.Finds (.combine op x y))
    (hc : op.flag? (t.machine.v x) (t.machine.v y) = some c)
    (hr : (op.value (t.machine.v x) (t.machine.v y)).toNat = result) (hf : c.toNat = flag) :
    t.Computes x result flag := by
  obtain ⟨he, ha⟩ := Session.step_of_finds hx hi rfl
  have hv : ∀ r, (t.after .step).machine.v r =
      if r = .flag then c.toUInt8
      else if r = x then op.value (t.machine.v x) (t.machine.v y) else t.machine.v r := by
    intro r
    rw [ha]
    dsimp only
    rw [Machine.v_perform]
    dsimp only
    rw [Machine.v_combine, hc]
  refine ⟨by rw [he]; rfl, ?_, fun hne => ?_, fun r hr hne => ?_⟩
  · rw [hv, if_pos rfl, ← hf]
    cases c <;> rfl
  · rw [hv, if_neg hne, if_pos rfl, hr]
  · rw [hv, if_neg hne, if_neg hr]

end Session

/--
**Results and flags are those of integers, whichever registers they come from and go to.**

`a` and `b` are the values of VX and VY before the step, as integers. The flag is that of the
numbers before the step and stays where VX is the flag register, in which case there is no result.
Anywhere else the result is what eight bits hold of the number. Neither shift looks at VY. To add
a byte flags nothing, so the flag register can be counted up like any other.
-/
theorem results_and_flags_of_integers (hx : t.machine.awaiting = none) {a b : Int}
    (ha : (t.machine.v x).toNat = a) (hb : (t.machine.v y).toNat = b) :
    (t.machine.Finds (.combine .add x y) →
        t.Computes x ((a + b) % 256) (if 255 < a + b then 1 else 0))
      ∧ (t.machine.Finds (.combine .sub x y) →
        t.Computes x ((a - b) % 256) (if b ≤ a then 1 else 0))
      ∧ (t.machine.Finds (.combine .subFrom x y) →
        t.Computes x ((b - a) % 256) (if a ≤ b then 1 else 0))
      ∧ (t.machine.Finds (.combine .shiftRight x y) → t.Computes x (a / 2) (a % 2))
      ∧ (t.machine.Finds (.combine .shiftLeft x y) → t.Computes x (2 * a % 256) (a / 128))
      ∧ (∀ op, op = .shiftRight ∨ op = .shiftLeft → ∀ z,
        t.machine.perform t.host (.combine op x z) = t.machine.perform t.host (.combine op x y))
      ∧ ∀ n, t.machine.Finds (.increase x n) →
        t.step.event.outcome = .done
          ∧ ((t.after .step).machine.v x).toNat = (a + n.toNat) % 256
          ∧ ∀ r, r ≠ x → (t.after .step).machine.v r = t.machine.v r := by
  have hlt : ∀ op : Operation, (op.value (t.machine.v x) (t.machine.v y)).toNat < 256 :=
    fun op => UInt8.toNat_lt _
  have hbit : ∀ c : Bool, c.toNat ≤ 1 := Bool.toNat_le
  refine ⟨fun hi => ?_, fun hi => ?_, fun hi => ?_, fun hi => ?_, fun hi => ?_, ?_, fun n hi => ?_⟩
  · have he := Operation.add_exact (t.machine.v x) (t.machine.v y)
    have hv := hlt .add
    have hc := hbit (decide (256 ≤ (t.machine.v x).toNat + (t.machine.v y).toNat))
    exact Session.computes_of_finds hx hi rfl (by omega) (by split <;> omega)
  · have he := Operation.sub_exact (t.machine.v x) (t.machine.v y)
    have hv := hlt .sub
    have hc := hbit (decide (t.machine.v y ≤ t.machine.v x))
    exact Session.computes_of_finds hx hi rfl (by omega) (by split <;> omega)
  · have he := Operation.sub_exact (t.machine.v y) (t.machine.v x)
    have hv := hlt .subFrom
    have hc := hbit (decide (t.machine.v x ≤ t.machine.v y))
    -- the same difference, with VX and VY the other way round
    have hswap : Operation.value .subFrom (t.machine.v x) (t.machine.v y)
        = Operation.value .sub (t.machine.v y) (t.machine.v x) := rfl
    rw [hswap] at hv
    exact Session.computes_of_finds hx hi rfl (by rw [hswap]; omega) (by split <;> omega)
  · have he := Operation.shiftRight_exact (t.machine.v x) (t.machine.v y)
    have hc := hbit (decide (t.machine.v x &&& 1 = 1))
    exact Session.computes_of_finds hx hi rfl (by omega) (by omega)
  · have he := Operation.shiftLeft_exact (t.machine.v x) (t.machine.v y)
    have hv := hlt .shiftLeft
    have hc := hbit (decide (128 ≤ t.machine.v x))
    exact Session.computes_of_finds hx hi rfl (by omega) (by omega)
  · rintro op (rfl | rfl) z <;> rfl
  · obtain ⟨he, hs⟩ := Session.step_of_finds hx hi rfl
    have hv : ∀ r, (t.after .step).machine.v r
        = if r = x then t.machine.v x + n else t.machine.v r := by
      intro r
      rw [hs]
      exact Machine.v_perform ..
    refine ⟨by rw [he]; rfl, ?_, fun r hr => by rw [hv, if_neg hr]⟩
    rw [hv, if_pos rfl, UInt8.toNat_add, ← ha]
    omega

/-- Where the flag register is added to itself, only the carry is left. -/
theorem results_and_flags_of_integers_in_flag :
    ∃ s t : Session 4096 Headless, Machine.load 4096 #[0x6F, 0xC8, 0x8F, 0xF4] = .ok s.machine
      ∧ t = s.requests [.move .step]
      ∧ t.machine.v .flag = 200
      ∧ t.machine.Finds (.combine .add .flag .flag)
      ∧ t.Computes .flag ((200 + 200) % 256) 1 := by
  have hd : Layout.displayStart 4096 = 3840 := Layout.displayStart_eq _
  obtain ⟨s, hm, h0⟩ := Session.exists_atWord 4096 #[0x6F, 0xC8, 0x8F, 0xF4] Headless.mk (by decide)
  obtain ⟨-, a0, h1⟩ :=
    Session.step_of_isStraight (i := .set .flag 200) h0 (by omega) (by decide) rfl rfl
  have hv : (s.after .step).machine.v .flag = 200 := by
    rw [a0]
    exact Vector.getElem_set_self _
  have hi : (s.after .step).machine.Finds (.combine .add .flag .flag) :=
    Machine.finds_of_next (h1.next (by omega) (by decide) rfl)
  have hflag : ((s.after .step).machine.v .flag).toNat = (200 : Int) := by
    rw [hv]
    rfl
  exact ⟨s, _, hm, rfl, hv, hi,
    (results_and_flags_of_integers h1.awaiting_eq hflag hflag).1 hi⟩

end ChipEight
