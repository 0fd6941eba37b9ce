import ChipEight.Proofs.FaultCauses
import ChipEight.Proofs.Questions
import ChipEight.Proofs.Writes

/-!
# What an instruction leaves alone

Most of the machine is of no concern to most instructions. `Instruction.Fills` says which
registers one may change, `Machine.Touches` which bytes, and `Instruction.part?` which
one of the other parts, the program counter apart. Each of these can be read off the
instruction, and off the index register where memory is touched. `Session.Footprint` is
the promise that everything else stays as it is.

The program counter is never left alone, so `Machine.GoesTo` says where it is then. Six
instructions decide between two places. They are three pairs, and what leads the one of
a pair to skip keeps the other from it (`Session.Opposite`).
-/

namespace ChipEight

variable {size size' : Nat} {σ τ : Type} [Host σ] [Host τ]

/-- What an instruction may change besides registers, memory and the program counter. -/
inductive Part where
  | index
  | stack
  | delay
  | sound
  | wait
  | host

namespace Instruction

/-- The one of these parts that an instruction may change. -/
def part? : Instruction → Option Part
  | .setIndex _ | .addIndex _ | .pointGlyph _ => some .index
  | .call _ | .ret => some .stack
  | .setDelay _ => some .delay
  | .setSound _ => some .sound
  | .awaitKey _ => some .wait
  | .random _ _ | .skipIfKey _ | .skipUnlessKey _ => some .host
  | _ => none

/-- Whether an instruction may change register `r`. -/
def Fills (i : Instruction) (r : Register) : Prop :=
  match i with
  | .set x _ | .increase x _ | .random x _ | .getDelay x => r = x
  | .combine .move x _ | .combine .or x _ | .combine .and x _ | .combine .xor x _ => r = x
  | .combine _ x _ => r = x ∨ r = .flag
  | .draw _ _ _ | .addIndex _ => r = .flag
  | .restore x => r ≤ x
  | _ => False

end Instruction

namespace Machine

/-- Whether an instruction leaves out the one behind it. -/
def Skips (m : Machine size) (h : σ) : Instruction → Prop
  | .skipIfByte x n => m.v x = n
  | .skipUnlessByte x n => m.v x ≠ n
  | .skipIfEqual x y => m.v x = m.v y
  | .skipUnlessEqual x y => m.v x ≠ m.v y
  | .skipIfKey x => (Host.keys h).1.isDown (Register.ofByte (m.v x)) = true
  | .skipUnlessKey x => (Host.keys h).1.isDown (Register.ofByte (m.v x)) = false
  | _ => False

/-- Whether execution goes on at `pc` after an instruction. Behind the last address it goes on
at the first. -/
def GoesTo (m : Machine size) (h : σ) (i : Instruction) (pc : UInt16) : Prop :=
  match i with
  | .jump t | .call t => pc.toNat = t.val
  | .ret => m.stack.head? = some pc
  | .jumpOffset t => pc.toNat = t.val + (m.v .offset).toNat
  | .awaitKey _ => pc = m.pc
  | i => (m.Skips h i ∧ pc.toNat = (m.pc.toNat + 4) % 65536)
      ∨ (¬ m.Skips h i ∧ pc.toNat = (m.pc.toNat + 2) % 65536)

end Machine

namespace Session

/-- What an instruction that leads from `t` to `u` has left alone, and where it has gone. -/
structure Footprint (t u : Session size σ) (i : Instruction) : Prop where
  goesTo : t.machine.GoesTo t.host i u.machine.pc
  v_eq : ∀ r, ¬ i.Fills r → u.machine.v r = t.machine.v r
  byte_eq : ∀ a, ¬ t.machine.Touches i a → u.machine.memory.byte a = t.machine.memory.byte a
  index_eq : i.part? ≠ some .index → u.machine.index = t.machine.index
  stack_eq : i.part? ≠ some .stack → u.machine.stack = t.machine.stack
  delay_eq : i.part? ≠ some .delay → u.machine.delay = t.machine.delay
  sound_eq : i.part? ≠ some .sound → u.machine.sound = t.machine.sound
  awaiting_eq : i.part? ≠ some .wait → u.machine.awaiting = t.machine.awaiting
  host_eq : i.part? ≠ some .host → u.host = t.host
  /-- This is nobody's to change. -/
  programLength_eq : u.machine.programLength = t.machine.programLength

/-- Whether the next step moves the program counter on by `n`. -/
def Advances (t : Session size σ) (n : Nat) : Prop :=
  (t.after .step).machine.pc.toNat = (t.machine.pc.toNat + n) % 65536

/-- Two instructions that ask the opposite of the same values, or of the same key. -/
inductive Opposite (t : Session size σ) (u : Session size' τ) : Instruction → Instruction → Prop
  | byte {x x' : Register} {n : UInt8} (hx : u.machine.v x' = t.machine.v x) :
      Opposite t u (.skipIfByte x n) (.skipUnlessByte x' n)
  | equal {x y x' y' : Register} (hx : u.machine.v x' = t.machine.v x)
      (hy : u.machine.v y' = t.machine.v y) :
      Opposite t u (.skipIfEqual x y) (.skipUnlessEqual x' y')
  | key {x x' : Register} (hx : u.machine.v x' = t.machine.v x)
      (hk : (Host.keys u.host).1 = (Host.keys t.host).1) :
      Opposite t u (.skipIfKey x) (.skipUnlessKey x')

end Session

/-! ## Where execution goes on -/

namespace Machine

/-- A place that depends on a condition, and the condition. -/
theorem toNat_skip {p : Prop} {c : Bool} (hc : c = true ↔ p) (pc : UInt16) :
    (p ∧ (pc + if c then 4 else 2).toNat = (pc.toNat + 4) % 65536)
      ∨ (¬ p ∧ (pc + if c then 4 else 2).toNat = (pc.toNat + 2) % 65536) := by
  cases c with
  | true => exact .inl ⟨hc.mp rfl, UInt16.toNat_add ..⟩
  | false => exact .inr ⟨fun hp => Bool.noConfusion (hc.mpr hp), UInt16.toNat_add ..⟩

theorem goesTo_perform (m : Machine size) (h : σ) {i : Instruction} (ho : m.obstacle? i = none) :
    m.GoesTo h i (m.perform h i).1.pc := by
  rw [pc_perform]
  cases i with
  | ret =>
    rw [obstacle?] at ho
    cases hs : m.stack with
    | nil =>
      rw [hs] at ho
      cases ho
    | cons a rest =>
      show m.stack.head? = some a
      rw [hs, List.head?_cons]
  | jump t | call t =>
    have ht : t.val < 65536 := by omega
    exact UInt16.toNat_ofNat_of_lt' ht
  | jumpOffset t =>
    have hv := (m.v .offset).toNat_lt
    have ht : t.val + (m.v .offset).toNat < 65536 := by omega
    exact UInt16.toNat_ofNat_of_lt' ht
  | awaitKey x => rfl
  | skipIfByte x n | skipIfEqual x y => exact toNat_skip beq_iff_eq m.pc
  | skipUnlessByte x n | skipUnlessEqual x y => exact toNat_skip bne_iff_ne m.pc
  | skipIfKey x => exact toNat_skip Iff.rfl m.pc
  | skipUnlessKey x => exact toNat_skip (Bool.not_eq_true' _).to_iff m.pc
  | _ => exact .inr ⟨id, UInt16.toNat_add ..⟩

/-! ## What stays as it is -/

theorem v_perform_of_not_fills (m : Machine size) (h : σ) {i : Instruction} {r : Register}
    (hn : ¬ i.Fills r) : (m.perform h i).1.v r = m.v r := by
  rw [v_perform]
  cases i with
  | set x n | increase x n | random x n | getDelay x => exact if_neg hn
  | draw x y rows | addIndex x => exact if_neg hn
  | restore x => exact (m.v_restore x r).trans (if_neg hn)
  | combine op x y =>
    refine (m.v_combine op x y r).trans ?_
    cases op with
    | move | or | and | xor => exact if_neg hn
    | add | sub | subFrom | shiftRight | shiftLeft =>
      exact (if_neg fun hf => hn (.inr hf)).trans (if_neg fun hr => hn (.inl hr))
  | _ => rfl

end Machine

namespace Session

variable {t : Session size σ} {u : Session size' τ} {i j : Instruction}

theorem footprint_of_finds (hx : t.machine.awaiting = none) (hi : t.machine.Finds i)
    (ho : t.machine.obstacle? i = none) : t.Footprint (t.after .step) i := by
  rw [(Session.step_of_finds hx hi ho).2]
  constructor
  case goesTo => exact t.machine.goesTo_perform t.host ho
  case v_eq => exact fun r => t.machine.v_perform_of_not_fills t.host
  case byte_eq => exact fun a => t.machine.byte_perform_of_not_touches t.host
  case programLength_eq => exact t.machine.programLength_perform t.host i
  all_goals
    intro hn
    dsimp only
  case index_eq =>
    rw [Machine.index_perform]
    cases i with
    | setIndex target | addIndex x | pointGlyph x => exact absurd rfl hn
    | _ => rfl
  case stack_eq =>
    rw [Machine.stack_perform]
    cases i with
    | call target | ret => exact absurd rfl hn
    | _ => rfl
  case delay_eq =>
    rw [Machine.delay_perform]
    cases i with
    | setDelay x => exact absurd rfl hn
    | _ => rfl
  case sound_eq =>
    rw [Machine.sound_perform]
    cases i with
    | setSound x => exact absurd rfl hn
    | _ => rfl
  case awaiting_eq =>
    rw [Machine.awaiting_perform]
    cases i with
    | awaitKey x => exact absurd rfl hn
    | _ => rfl
  case host_eq =>
    rw [Machine.perform_asks]
    cases i with
    | random x n | skipIfKey x | skipUnlessKey x => exact absurd rfl hn
    | _ => rfl

/-! ## Pairs that ask the opposite -/

theorem Opposite.skips_iff (h : t.Opposite u i j) :
    u.machine.Skips u.host j ↔ ¬ t.machine.Skips t.host i := by
  cases h with
  | byte hx => rw [Machine.Skips, Machine.Skips, hx]
  | equal hx hy => rw [Machine.Skips, Machine.Skips, hx, hy]
  | key hx hk => rw [Machine.Skips, Machine.Skips, hx, hk, Bool.not_eq_true]

/-- Nothing stands in the way of either, and both go on behind themselves or one further. -/
theorem Opposite.advances (h : t.Opposite u i j) (hx : t.machine.awaiting = none)
    (hi : t.machine.Finds i) (hx' : u.machine.awaiting = none) (hj : u.machine.Finds j) :
    (t.machine.Skips t.host i ∧ t.Advances 4 ∨ ¬ t.machine.Skips t.host i ∧ t.Advances 2)
      ∧ (u.machine.Skips u.host j ∧ u.Advances 4 ∨ ¬ u.machine.Skips u.host j ∧ u.Advances 2) := by
  cases h with
  | byte | equal | key =>
    exact ⟨(footprint_of_finds hx hi rfl).goesTo, (footprint_of_finds hx' hj rfl).goesTo⟩

theorem Opposite.one_skips (h : t.Opposite u i j) (hx : t.machine.awaiting = none)
    (hi : t.machine.Finds i) (hx' : u.machine.awaiting = none) (hj : u.machine.Finds j) :
    (t.Advances 4 ∧ u.Advances 2) ∨ (t.Advances 2 ∧ u.Advances 4) := by
  obtain ⟨ht, hu⟩ := h.advances hx hi hx' hj
  rw [h.skips_iff] at hu
  rcases ht with ⟨hs, ht⟩ | ⟨hs, ht⟩
  · rcases hu with ⟨hn, -⟩ | ⟨-, hu⟩
    · exact absurd hs hn
    · exact .inl ⟨ht, hu⟩
  · rcases hu with ⟨-, hu⟩ | ⟨hn, -⟩
    · exact .inr ⟨ht, hu⟩
    · exact absurd hs hn

end Session

/--
**A step goes where its instruction leads, and changes what that is there for.**

`t` is any session in which no key is awaited and the step succeeds. An instruction was found then,
and the step keeps to its footprint. If it is one of a pair that asks the opposite, then the other
one, wherever it is found with the same values or the same keys, skips exactly if this one does
not.
-/
theorem step_keeps_to_footprint {t : Session size σ} (hx : t.machine.awaiting = none)
    (hd : t.step.event.outcome = .done) :
    ∃ i, t.machine.Finds i ∧ t.Footprint (t.after .step) i
      ∧ ∀ {size' : Nat} {τ : Type} [Host τ] {u : Session size' τ} {j : Instruction},
          u.machine.awaiting = none → u.machine.Finds j → t.Opposite u i j ∨ u.Opposite t j i →
          (t.Advances 4 ∧ u.Advances 2) ∨ (t.Advances 2 ∧ u.Advances 4) := by
  obtain ⟨i, hi, ho⟩ := Session.exists_finds hx hd
  refine ⟨i, hi, Session.footprint_of_finds hx hi ho, ?_⟩
  rintro size' τ _ u j hx' hj (h | h)
  · exact h.one_skips hx hi hx' hj
  · exact ((h.one_skips hx' hj hx hi).imp And.symm And.symm).symm

/-- Of two programs that differ in one digit, only the first skips what follows. No register has
changed then. -/
theorem step_keeps_to_footprint_pair :
    ∃ s t s' u : Session 4096 Headless,
      Machine.load 4096 #[0x60, 0x07, 0x30, 0x07] = .ok s.machine
        ∧ Machine.load 4096 #[0x60, 0x07, 0x40, 0x07] = .ok s'.machine
        ∧ t = s.requests [.move .step] ∧ u = s'.requests [.move .step]
        ∧ t.machine.Finds (.skipIfByte 0 7) ∧ u.machine.Finds (.skipUnlessByte 0 7)
        ∧ t.Advances 4 ∧ u.Advances 2
        ∧ ∀ r, (t.after .step).machine.v r = t.machine.v r := by
  have hd : Layout.displayStart 4096 = 3840 := Layout.displayStart_eq _
  obtain ⟨s, hm, h0⟩ := Session.exists_atWord 4096 #[0x60, 0x07, 0x30, 0x07] Headless.mk (by decide)
  obtain ⟨s', hm', h0'⟩ :=
    Session.exists_atWord 4096 #[0x60, 0x07, 0x40, 0x07] Headless.mk (by decide)
  obtain ⟨-, a0, h1⟩ :=
    Session.step_of_isStraight (i := .set 0 7) h0 (by omega) (by decide) rfl rfl
  obtain ⟨-, a0', h1'⟩ :=
    Session.step_of_isStraight (i := .set 0 7) h0' (by omega) (by decide) rfl rfl
  have hv : (s.after .step).machine.v 0 = 7 := by
    rw [a0]
    exact Vector.getElem_set_self _
  have hv' : (s'.after .step).machine.v 0 = 7 := by
    rw [a0']
    exact Vector.getElem_set_self _
  have hi : (s.after .step).machine.Finds (.skipIfByte 0 7) :=
    Machine.finds_of_next (h1.next (by omega) (by decide) rfl)
  have hj : (s'.after .step).machine.Finds (.skipUnlessByte 0 7) :=
    Machine.finds_of_next (h1'.next (by omega) (by decide) rfl)
  obtain ⟨e1, -⟩ := Session.step_of_finds h1.awaiting_eq hi rfl
  obtain ⟨i, hf, hfoot, hpair⟩ := step_keeps_to_footprint h1.awaiting_eq (by rw [e1]; rfl)
  rw [hf.eq hi] at hfoot hpair
  have hone := hpair h1'.awaiting_eq hj (.inl (.byte (hv'.trans hv.symm)))
  have hadvances : (s.after .step).Advances 4 ∧ (s'.after .step).Advances 2 := by
    rcases hone with h | ⟨h2, -⟩
    · exact h
    · rcases hfoot.goesTo with ⟨-, h4⟩ | ⟨hn, -⟩
      · rw [Session.Advances] at h2
        omega
      · exact absurd hv hn
  exact ⟨s, _, s', _, hm, hm', rfl, rfl, hi, hj, hadvances.1, hadvances.2,
    fun r => hfoot.v_eq r id⟩

end ChipEight
