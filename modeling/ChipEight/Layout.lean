/-!
# How memory is partitioned

Everything follows from the size of memory. The display takes the last 256 bytes, 96 bytes
below it are reserved (a slot of four bytes for each of the twelve calls, then the slot of
the index register), and the program has what is left above the first 512 bytes, which
belong to the font.

Sizes too small for this are not refused here. Subtraction stops at zero, the program region
comes out empty, and `IsValid` says so.
-/

namespace ChipEight.Layout

/-- A stretch of addresses: from `start` up to, and without, `stop`. -/
structure Region where
  start : Nat
  stop : Nat
  deriving DecidableEq

namespace Region

/-- The number of addresses in a region. -/
def size (r : Region) : Nat := r.stop - r.start

instance : Membership Nat Region where
  mem r a := r.start ≤ a ∧ a < r.stop

theorem mem_iff {r : Region} {a : Nat} : a ∈ r ↔ r.start ≤ a ∧ a < r.stop := Iff.rfl

end Region

/-- The memory of a machine for which no other size was asked. -/
def defaultSize : Nat := 4096

/-- Bytes of the display: 64 by 32 pixels, one bit each. -/
def displayBytes : Nat := 256

/-- How many subroutines can be entered at a time. -/
def stackDepth : Nat := 12

/-- Bytes of the call stack: four for each call. -/
def stackBytes : Nat := 4 * stackDepth

/-- Bytes kept between the program and the display. -/
def reservedBytes : Nat := 96

/-- Where programs are loaded; lower addresses belong to the font. -/
def programStart : Nat := 512

/-- The display ends where memory ends. -/
def displayStart (size : Nat) : Nat := size - displayBytes

theorem displayStart_eq (size : Nat) : displayStart size = size - 256 := rfl

theorem displayStart_le (size : Nat) : displayStart size ≤ size := Nat.sub_le size displayBytes

/-- The display of a larger memory does not begin before that of a smaller one. -/
theorem displayStart_mono {size size' : Nat} (h : size ≤ size') :
    displayStart size ≤ displayStart size' :=
  Nat.sub_le_sub_right h displayBytes

-- The type of a memory depends on this number, and a subtraction that is unfolded there is
-- carried out one by one.
attribute [irreducible] displayStart

/-- The call stack follows the program. -/
def callStackStart (size : Nat) : Nat := displayStart size - reservedBytes

/-- The slot of the index register follows the call stack. -/
def indexSlot (size : Nat) : Nat := callStackStart size + stackBytes

/-- The font, in the first bytes of memory. -/
def font : Region := ⟨0, 80⟩

/-- The bytes for programs. At a size that is too small it stops before it starts. -/
def program (size : Nat) : Region := ⟨programStart, callStackStart size⟩

/-- The bytes kept for the call stack. -/
def callStack (size : Nat) : Region := ⟨callStackStart size, indexSlot size⟩

/-- The bytes kept for the index register. -/
def indexRegister (size : Nat) : Region := ⟨indexSlot size, displayStart size⟩

/-- The bytes of the display. -/
def display (size : Nat) : Region := ⟨displayStart size, size⟩

/-- The size of the longest program that can be loaded. -/
def capacity (size : Nat) : Nat := (program size).size

/-- Whether any program fits. -/
def IsValid (size : Nat) : Prop := (program size).start < (program size).stop

instance (size : Nat) : Decidable (IsValid size) := inferInstanceAs (Decidable (_ < _))

/-- **Capacity is what 864 bytes of overhead leave.** -/
theorem capacity_eq (size : Nat) : capacity size = size - 864 := by
  simp only [capacity, Region.size, program, callStackStart, displayStart_eq, reservedBytes,
    programStart]
  omega

theorem isValid_iff (size : Nat) : IsValid size ↔ 865 ≤ size := by
  simp only [IsValid, program, callStackStart, displayStart_eq, reservedBytes, programStart]
  omega

end ChipEight.Layout
