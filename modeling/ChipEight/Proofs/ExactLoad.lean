import ChipEight.Proofs.Plain.Agreement
import ChipEight.Proofs.Readings
import ChipEight.Setup

/-!
# Exactly what a load makes

A load copies two things into memory that is zero, and each has to end before the next begins:
the font before the program, the program before the reserved bytes, and these before the display.
The room for a program is a difference of offsets, and these are differences that stop at zero.
It has to come out right to the byte at every size of memory.

`Machine.Loaded` says what the result is, address by address for all of memory and part by part
for the rest. It leaves no choice: `loaded_iff` says that there is one such machine. The host is
only kept. Here it may be of any type, also of one that nothing could be asked.
-/

namespace ChipEight

variable {size : Nat} {σ : Type}

/-- The machine is the one to begin `program` with. -/
structure Machine.Loaded (m : Machine size) (program : Array UInt8) : Prop where
  /-- The font, the program, and zero everywhere else. -/
  memory_eq : ∀ a (_ : a < size), m.memory[a] =
    if _ : a < 80 then Font.table[a]
    else if 512 ≤ a ∧ a < 512 + program.size then program.getD (a - 512) 0
    else 0
  /-- The program ends before the reserved bytes, and these end before the display. -/
  program_below : 512 + program.size ≤ Layout.callStackStart size ∧
    Layout.callStackStart size + 96 = Layout.displayStart size ∧
    Layout.displayStart size + 256 = size
  /-- No pixel is on. -/
  frame_blank : ∀ x y, x < 64 → y < 32 → m.display.pixel x y = some false
  /-- The first instruction is the first of the program. -/
  pc_eq : m.pc.toNat = 512
  index_eq : m.index = 0
  registers_eq : ∀ x, m.v x = 0
  /-- No subroutine was entered. -/
  stack_eq : m.stack = []
  /-- Both timers have a second to go. -/
  timers_eq : m.delay.value = 60 ∧ m.sound.value = 60
  /-- No key is awaited. -/
  awaiting_eq : m.awaiting = none
  programLength_eq : m.programLength = program.size

/-- Memories with the same bytes are the same. -/
theorem Memory.eq_of_getElem {mem mem' : Memory size} (hs : 256 ≤ size)
    (h : ∀ a (_ : a < size), mem[a] = mem'[a]) : mem = mem' := by
  have hd := Layout.displayStart_eq size
  have hlow : mem.low = mem'.low := by
    refine Vector.ext fun a ha => ?_
    have hlt : a < size := by omega
    rw [← getElem_of_lt mem hlt ha, ← getElem_of_lt mem' hlt ha, h a hlt]
  have hdisplay : mem.display.bytes = mem'.display.bytes := by
    refine Vector.ext fun k hk => ?_
    have hlt : Layout.displayStart size + k < size := by omega
    rw [← getElem_of_le mem hlt hk rfl, ← getElem_of_le mem' hlt hk rfl, h _ hlt]
  obtain ⟨low, bytes⟩ := mem
  obtain ⟨low', bytes'⟩ := mem'
  obtain rfl : low = low' := hlow
  exact congrArg (mk low ⟨·⟩) hdisplay

namespace Machine

theorem loaded_fresh (hsize : 865 ≤ size) {program : Array UInt8} (hp : program.size ≤ size - 864) :
    (fresh size program).Loaded program where
  memory_eq a ha := by
    change (Memory.initial size program)[a] = _
    rw [Plain.getElem_initial hsize hp ha]
    by_cases hf : a < 80
    · rw [dif_pos hf, dif_pos hf]
    · rw [dif_neg hf, dif_neg hf]
      by_cases h512 : 512 ≤ a
      · by_cases hend : a < 512 + program.size
        · rw [if_neg (by omega), if_pos ⟨h512, hend⟩]
        · have hz : program.getD (a - 512) 0 = 0 := dif_neg (by omega)
          rw [if_neg (by omega), if_neg (fun h => hend h.2), hz]
      · rw [if_pos (by omega), if_neg (fun h => h512 h.1)]
  program_below := by
    have hstart : Layout.callStackStart size = Layout.displayStart size - 96 := rfl
    have hdisplay := Layout.displayStart_eq size
    omega
  frame_blank x y hx hy := by
    change Display.blank.pixel x y = some false
    rw [Display.pixel_eq, if_pos ⟨hx, hy⟩, Display.bitAt_blank hx hy]
  pc_eq := rfl
  index_eq := rfl
  registers_eq x := Vector.getElem_replicate x.isLt
  stack_eq := rfl
  timers_eq := ⟨rfl, rfl⟩
  awaiting_eq := rfl
  programLength_eq := rfl

/-- **There is one machine to begin a program with.** -/
theorem loaded_iff (hsize : 865 ≤ size) {program : Array UInt8} (hp : program.size ≤ size - 864)
    {m : Machine size} : m.Loaded program ↔ m = fresh size program := by
  constructor
  · intro h
    have hf := loaded_fresh hsize hp
    obtain ⟨registers, index, pc, memory, stack, ⟨delay⟩, ⟨sound⟩, awaiting, programLength⟩ := m
    have hregisters : registers = Vector.replicate 16 0 := by
      refine Vector.ext fun x hx => ?_
      exact (h.registers_eq ⟨x, hx⟩).trans (hf.registers_eq ⟨x, hx⟩).symm
    have hmemory : memory = .initial size program :=
      Memory.eq_of_getElem (by omega) fun a ha =>
        (h.memory_eq a ha).trans (hf.memory_eq a ha).symm
    have hpc : pc = 512 := UInt16.toNat_inj.mp h.pc_eq
    obtain rfl : index = 0 := h.index_eq
    obtain rfl : stack = [] := h.stack_eq
    obtain ⟨rfl, rfl⟩ : delay = 60 ∧ sound = 60 := h.timers_eq
    obtain rfl : awaiting = none := h.awaiting_eq
    obtain rfl : programLength = program.size := h.programLength_eq
    rw [hregisters, hmemory, hpc]
    rfl
  · rintro rfl
    exact loaded_fresh hsize hp

theorem load_eq_error_iff {program : Array UInt8} {e : Error} :
    load size program = .error e ↔
      size - 864 < program.size ∧ e = .programTooLarge program.size (size - 864) := by
  rw [load, Layout.capacity_eq]
  by_cases h : program.size ≤ size - 864
  · rw [if_pos h]
    constructor
    · intro he
      cases he
    · intro he
      exact absurd h (Nat.not_le.mpr he.1)
  · rw [if_neg h, Except.error.injEq, eq_comm]
    exact ⟨fun he => ⟨Nat.not_le.mp h, he⟩, fun he => he.2⟩

end Machine

/-- What comes of a host and a program. -/
def loadWith (size : Nat) (h : σ) (program : Array UInt8) : Except Error (Machine size × σ) :=
  ((Setup.empty.withHost h).withProgram program).build size

theorem loadWith_eq (h : σ) (program : Array UInt8) :
    loadWith size h program = (Machine.load size program).map (·, h) := rfl

theorem loadWith_eq_error_iff {h : σ} {program : Array UInt8} {e : Error} :
    loadWith size h program = .error e ↔
      size - 864 < program.size ∧ e = .programTooLarge program.size (size - 864) := by
  rw [loadWith_eq, ← Machine.load_eq_error_iff]
  cases Machine.load size program with
  | ok m => simp [Except.map]
  | error d => simp [Except.map]

theorem loadWith_eq_ok_iff {h g : σ} {program : Array UInt8} {m : Machine size} :
    loadWith size h program = .ok (m, g) ↔ Machine.load size program = .ok m ∧ g = h := by
  rw [loadWith_eq]
  cases Machine.load size program with
  | ok n => simp [Except.map, eq_comm]
  | error e => simp [Except.map]

/-- **A load is refused exactly for a program that does not fit, and otherwise makes the one
machine to begin it with.** What the refusal says is the length of the program and how much would
fit. The host is handed back as it was given. In plain memory, one copy of the font and one of the
program are all that it takes, and neither reaches out of range. -/
theorem load_is_exact (hsize : 865 ≤ size) (program : Array UInt8) (h : σ) :
    (∀ e, loadWith size h program = .error e ↔
      size - 864 < program.size ∧ e = .programTooLarge program.size (size - 864)) ∧
    (∀ m g, loadWith size h program = .ok (m, g) ↔
      program.size ≤ size - 864 ∧ m.Loaded program ∧ g = h) ∧
    ∀ limit, size < limit → Plain.load limit size program.toList
      = .ok ((loadWith size h program).map fun p => p.1.plain) := by
  refine ⟨fun e => loadWith_eq_error_iff, fun m g => ?_, fun limit hword => ?_⟩
  · rw [loadWith_eq_ok_iff, Machine.load_eq_ok_iff]
    constructor
    · rintro ⟨⟨hp, rfl⟩, rfl⟩
      exact ⟨hp, Machine.loaded_fresh hsize hp, rfl⟩
    · rintro ⟨hp, hm, rfl⟩
      exact ⟨⟨hp, (Machine.loaded_iff hsize hp).mp hm⟩, rfl⟩
  · rw [Plain.load_plain hsize hword, loadWith_eq]
    cases Machine.load size program with
    | ok m => rfl
    | error e => rfl

/-- The smallest memory takes a program of one byte. One of two bytes is refused, and the host of
the one that was loaded was not asked for anything. -/
theorem load_is_exact_at_smallest :
    loadWith 865 (Counted.start (⟨⟩ : Headless)) #[0x60, 0x01] = .error (.programTooLarge 2 1) ∧
    ∃ m g, loadWith 865 (Counted.start (⟨⟩ : Headless)) #[0x60] = .ok (m, g) ∧
      m.memory.byte 512 = 0x60 ∧ m.memory.byte 513 = 0 ∧ m.memory.byte 864 = 0 ∧
      g.polls = 0 ∧ g.rolls = 0 := by
  have hsize : 865 ≤ 865 := by decide
  obtain ⟨m, hload⟩ : ∃ m : Machine 865, m.Loaded #[0x60] :=
    ⟨_, Machine.loaded_fresh hsize (by decide)⟩
  obtain ⟨-, hok, -⟩ := load_is_exact hsize #[0x60] (Counted.start (⟨⟩ : Headless))
  refine ⟨((load_is_exact hsize #[0x60, 0x01] _).1 _).mpr ⟨by decide, rfl⟩, m, .start ⟨⟩,
    (hok m _).mpr ⟨by decide, hload, rfl⟩, ?_, ?_, ?_, rfl, rfl⟩
  · rw [Memory.byte_of_lt _ (by decide), hload.memory_eq]
    rfl
  · rw [Memory.byte_of_lt _ (by decide), hload.memory_eq]
    rfl
  · rw [Memory.byte_of_lt _ (by decide), hload.memory_eq]
    rfl

end ChipEight
