import ChipEight.Proofs.MemorySize

/-!
# What a program can write to

Drawing and clearing change memory too, but only the bytes of the display. Below it
there are two instructions that write, and each does so from the index register on,
over as many bytes as it says. `Machine.Writes m i` is that stretch of addresses, and
`byte_perform` says that every other byte below the display is left alone, whatever the
instruction is.

So a byte that was never in such a stretch is still what it was when the program was
loaded. It does not matter how many steps that is ago, what was drawn and cleared, and
which steps failed.
-/

namespace ChipEight

variable {size : Nat} {σ : Type} [Host σ]

/-! ## Bytes that are not written to -/

namespace Memory

/-- There is nothing to be read behind the end of memory. -/
theorem byte_of_le (mem : Memory size) {a : Nat} (h : size ≤ a) : mem.byte a = 0 :=
  dif_neg (Nat.not_lt.mpr h)

theorem byte_write (mem : Memory size) (start : Nat) (bs : List UInt8) {a : Nat} (ha : a < size) :
    (mem.write start bs).byte a
      = if start ≤ a then bs[a - start]?.getD (mem.byte a) else mem.byte a := by
  rw [byte_of_lt _ ha, byte_of_lt _ ha, getElem_write]

/-- A byte outside of what is written stays as it is. -/
theorem byte_write_of_not (mem : Memory size) {start : Nat} {bs : List UInt8} {a : Nat}
    (h : ¬(start ≤ a ∧ a < start + bs.length)) : (mem.write start bs).byte a = mem.byte a := by
  rcases Nat.lt_or_ge a size with ha | ha
  · rw [byte_write mem start bs ha]
    split
    · rename_i hle
      have hlen : bs.length ≤ a - start := by omega
      rw [List.getElem?_eq_none hlen, Option.getD_none]
    · rfl
  · rw [byte_of_le _ ha, byte_of_le _ ha]

end Memory

namespace Machine

/-- Whether an instruction of this machine writes to `a` through the index register. -/
def Writes (m : Machine size) (i : Instruction) (a : Nat) : Prop :=
  match i with
  | .writeDecimal _ => m.index.toNat ≤ a ∧ a < m.index.toNat + 3
  | .save x => m.index.toNat ≤ a ∧ a < m.index.toNat + (x.val + 1)
  | _ => False

/-- Whether an instruction of this machine may change the byte at `a`. -/
def Touches (m : Machine size) (i : Instruction) (a : Nat) : Prop :=
  match i with
  | .clear | .draw _ _ _ => a ∈ Layout.display size
  | i => m.Writes i a

/-- Any other byte is left alone. -/
theorem byte_perform_of_not_touches (m : Machine size) (h : σ) {i : Instruction} {a : Nat}
    (hn : ¬ m.Touches i a) : (m.perform h i).1.memory.byte a = m.memory.byte a := by
  have hl := low_perform m h i
  cases i with
  | clear | draw x y rows =>
    rcases Nat.lt_or_ge a size with hs | hs
    · have hd : a < Layout.displayStart size :=
        Nat.not_le.mp fun hle => hn (Layout.Region.mem_iff.mpr ⟨hle, hs⟩)
      exact Memory.byte_eq_of_low hl hd
    · rw [Memory.byte_of_le _ hs, Memory.byte_of_le _ hs]
  | writeDecimal x =>
    rw [memory_perform]
    exact Memory.byte_write_of_not _ hn
  | save x =>
    have hlen : (m.registers.toList.take (x.val + 1)).length = x.val + 1 := by
      rw [List.length_take, Vector.length_toList]
      omega
    rw [memory_perform]
    exact Memory.byte_write_of_not _ (by rw [hlen]; exact hn)
  | _ =>
    rw [memory_perform]
    rfl

/-- **An instruction leaves every byte alone that is neither on the display nor written to.** -/
theorem byte_perform (m : Machine size) (h : σ) {i : Instruction} {a : Nat}
    (ha : a ∉ Layout.display size) (hw : ¬ m.Writes i a) :
    (m.perform h i).1.memory.byte a = m.memory.byte a := by
  refine m.byte_perform_of_not_touches h ?_
  cases i with
  | clear | draw x y rows => exact ha
  | _ => exact hw

end Machine

/-! ## Whole runs -/

/-- Whether a move is a step that writes to `a` through the index register. -/
def Moment.Writes (x : Moment size σ) (a : Nat) : Prop :=
  ∃ i, x.executed? = some i ∧ x.before.machine.Writes i a

/-- Whatever else a move may be, it does not get at memory below the display. -/
theorem Moment.byte_after {x : Moment size σ} {a : Nat} (ha : a ∉ Layout.display size)
    (hw : ¬ x.Writes a) : x.after.machine.memory.byte a = x.before.machine.memory.byte a := by
  cases x.effect with
  | executed hi _ _ _ hm =>
    rw [hm]
    exact Machine.byte_perform _ _ ha fun h => hw ⟨_, hi, h⟩
  | keyStored _ _ hm | ticked _ _ hm =>
    rw [hm]
    rfl
  | still _ _ hm => rw [hm]

theorem History.byte_eq {s t : Session size σ} {xs : List (Moment size σ)} (h : History s xs t)
    {a : Nat} (ha : a ∉ Layout.display size) (hw : ∀ x ∈ xs, ¬ x.Writes a) :
    t.machine.memory.byte a = s.machine.memory.byte a := by
  induction h with
  | nil => rfl
  | cons mv _ ih =>
    obtain ⟨hx, hxs⟩ := List.forall_mem_cons.mp hw
    exact (ih hxs).trans (Moment.byte_after ha hx)

/-! ## What a load puts below the display -/

/-- The reserved bytes are those between the program and the display. -/
theorem Layout.reserved_bounds (hsize : 865 ≤ size) {a : Nat}
    (h : a ∈ callStack size ∨ a ∈ indexRegister size) :
    callStackStart size ≤ a ∧ a < displayStart size := by
  have hslot : indexSlot size = callStackStart size + 48 := rfl
  have hstart : callStackStart size = displayStart size - 96 := rfl
  have hdisplay := displayStart_eq size
  simp only [Region.mem_iff, callStack, indexRegister] at h
  omega

/-- All of them are zero. -/
theorem Memory.byte_initial_reserved (hsize : 865 ≤ size) {program : Array UInt8}
    (hp : program.size ≤ size - 864) {a : Nat} (ha : Layout.callStackStart size ≤ a)
    (hd : a < Layout.displayStart size) : (initial size program).byte a = 0 := by
  have hstart : Layout.callStackStart size = Layout.displayStart size - 96 := rfl
  have hdisplay := Layout.displayStart_eq size
  obtain ⟨k, rfl⟩ : ∃ k, a = 512 + k := ⟨a - 512, by omega⟩
  have hk : program.size ≤ k := by omega
  rw [byte_initial_program hd, Array.getD_eq_getD_getElem?, Array.getElem?_eq_none hk,
    Option.getD_none]

/--
**A byte that was not written to is as it was loaded.**

Let `R` be any addresses outside of the display. If none of the instructions carried
out so far has written to one of them through the index register, then all of them hold
what they held when the program was loaded. So as long as neither of the two instructions
that write is carried out at all, the font, the program and the bytes reserved behind it
are still there.
-/
theorem writes_confined (hsize : 865 ≤ size) {program : Array UInt8} {s : Session size σ}
    (hm : Machine.load size program = .ok s.machine) (rs : List (Request σ)) :
    (∀ R : Nat → Prop, (∀ a, R a → a ∉ Layout.display size) →
        (∀ x ∈ s.trail rs, ∀ a, R a → ¬ x.Writes a) →
        ∀ a, R a → (s.requests rs).machine.memory.byte a = s.machine.memory.byte a)
      ∧ ((∀ x ∈ s.trail rs, ∀ r, x.executed? ≠ some (.writeDecimal r)
            ∧ x.executed? ≠ some (.save r)) →
          (∀ a : Fin 80, (s.requests rs).machine.memory.byte a.val = Font.table[a])
            ∧ (∀ k : Fin program.size,
                (s.requests rs).machine.memory.byte (Layout.programStart + k.val) = program[k])
            ∧ ∀ a, a ∈ Layout.callStack size ∨ a ∈ Layout.indexRegister size →
                (s.requests rs).machine.memory.byte a = 0) := by
  have hh := history_trail s rs
  obtain ⟨hp, he⟩ := Machine.load_eq_ok_iff.mp hm
  have hstart := Layout.displayStart_eq size
  refine ⟨fun R hR hw a ha => hh.byte_eq (hR a ha) fun x hx => hw x hx a ha, fun hn => ?_⟩
  -- without these two instructions nothing below the display is written to
  have hlow : ∀ a < Layout.displayStart size,
      (s.requests rs).machine.memory.byte a = (Memory.initial size program).byte a := by
    intro a ha
    have hd : a ∉ Layout.display size := fun h => Nat.not_le.mpr ha h.1
    rw [hh.byte_eq hd, he]
    · rfl
    · rintro x hx ⟨i, hi, hw⟩
      cases i with
      | writeDecimal r => exact (hn x hx r).1 hi
      | save r => exact (hn x hx r).2 hi
      | _ => exact hw
  refine ⟨fun a => ?_, fun k => ?_, fun a ha => ?_⟩
  · rw [hlow _ (by omega)]
    exact Memory.byte_initial_font a.isLt (by omega)
  · have hk : 512 + k.val < Layout.displayStart size := by omega
    rw [Layout.programStart, hlow _ hk, Memory.byte_initial_program hk,
      Array.getD_eq_getD_getElem?, Array.getElem?_eq_getElem k.isLt]
    rfl
  · obtain ⟨h1, h2⟩ := Layout.reserved_bounds hsize ha
    rw [hlow a h2]
    exact Memory.byte_initial_reserved hsize hp h1 h2

/-- A program that saves a register over the first byte of the font. Until then the font is there,
and afterwards no other byte below the display has changed. -/
theorem writes_confined_save_over_font :
    ∃ s t u : Session 4096 Headless, Machine.load 4096 #[0x60, 0x07, 0xF0, 0x55] = .ok s.machine
      ∧ t = s.requests [.move .step]
      ∧ u = s.requests [.move .step, .move .step]
      ∧ t.machine.memory.byte 0 = 0xF0
      ∧ u.machine.memory.byte 0 = 7
      ∧ ∀ a, 0 < a ∧ a < 3840 → u.machine.memory.byte a = s.machine.memory.byte a := by
  have hd : Layout.displayStart 4096 = 3840 := Layout.displayStart_eq _
  obtain ⟨s, hm, h0⟩ := Session.exists_atWord 4096 #[0x60, 0x07, 0xF0, 0x55] Headless.mk (by decide)
  obtain ⟨e0, a0, h1⟩ :=
    Session.step_of_isStraight (i := .set 0 7) h0 (by omega) (by decide) rfl rfl
  have hindex : (s.after .step).machine.index.toNat = 0 := by
    rw [a0]
    show s.machine.index.toNat = 0
    rw [(Machine.load_eq_ok_iff.mp hm).2]
    rfl
  have hv : (s.after .step).machine.registers[0] = 7 := by
    rw [a0]
    exact Vector.getElem_set_self _
  have ho : (s.after .step).machine.obstacle? (.save 0) = none := by
    rw [Machine.obstacle?_of_span? _ rfl, Memory.overrun?_eq_none_iff, hindex]
    decide
  obtain ⟨e1, a1⟩ := Session.step_of_atWord (i := .save 0) h1 (by omega) (by decide) rfl ho
  have hset : (Moment.mk s .step).executed? = some (.set 0 7) := by
    rw [Moment.executed?, e0]
    rfl
  have hfont : ((s.requests [.move .step]).machine.memory.byte 0) = 0xF0 := by
    refine ((writes_confined (by decide) hm [.move .step]).2 fun x hx r => ?_).1 0
    rw [List.mem_singleton.mp hx, hset]
    constructor <;> (intro h; cases h)
  refine ⟨s, _, _, hm, rfl, rfl, hfont, ?_, ?_⟩
  · show ((s.after .step).after .step).machine.memory.byte 0 = 7
    rw [a1]
    show ((s.after .step).machine.memory.write (s.after .step).machine.index.toNat _).byte 0 = 7
    rw [hindex, Memory.byte_write _ _ _ (by decide), if_pos (Nat.le_refl _), Nat.sub_self,
      List.getElem?_take_of_lt (by decide), Vector.getElem?_toList,
      Vector.getElem?_eq_getElem (by decide), hv]
    rfl
  · refine (writes_confined (by decide) hm [.move .step, .move .step]).1 _ ?_ ?_
    · intro a ha h
      rw [Layout.display, hd] at h
      exact Nat.not_le.mpr ha.2 h.1
    · refine List.forall_mem_cons.mpr ⟨?_, List.forall_mem_singleton.mpr ?_⟩
      · rintro a - ⟨i, hi, hw⟩
        rw [hset] at hi
        cases hi
        exact hw
      · rintro a ha ⟨i, hi, hw⟩
        change (s.after .step).step.event.executed? = some i at hi
        rw [e1] at hi
        cases hi
        -- the one byte that is written to is at the index register, and that is at zero
        change (s.after .step).machine.index.toNat ≤ a
          ∧ a < (s.after .step).machine.index.toNat + 1 at hw
        rw [hindex] at hw
        omega

end ChipEight
