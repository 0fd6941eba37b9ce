import ChipEight.Proofs.Plain.Access

/-!
# Regions that partition memory

Every offset of a layout is computed from the one above it, downwards from the end of memory, by
differences that stop at zero. So at a small size several offsets fall together, and it is not
to be seen from any one of them whether the regions still are what they are named for.

`Tiles` says of a list of regions that they follow each other without a gap. From it comes all that
is said of the regions at once: their order, that they are disjoint, and that an address has one
region and no other. At every size with room for a program the regions above the font
tile memory from the first byte of the program to the last of the display (`tiles_regions`).

`Offsets.compute` is the computation in words, with each difference and sum looked at before it
is carried out.
-/

namespace ChipEight.Layout

/-- No address is in both regions. -/
def Region.Disjoint (r r' : Region) : Prop := ∀ a, a ∈ r → a ∉ r'

/-- The first region ends before the second one begins, or right there. -/
def Region.Before (r r' : Region) : Prop := r.stop ≤ r'.start

/-- The regions follow each other without a gap, from `start` up to `stop`. -/
def Tiles (start : Nat) : List Region → (stop : Nat) → Prop
  | [], stop => start = stop
  | r :: rs, stop => r.start = start ∧ r.start ≤ r.stop ∧ Tiles r.stop rs stop

/-- The regions above the font, from the program to the display. -/
def regions (size : Nat) : List Region :=
  [program size, callStack size, indexRegister size, display size]

/-- What the regions of a memory are to be. -/
structure Partition (size : Nat) : Prop where
  /-- The font comes first, and then each region before the next. -/
  before : (font :: regions size).Pairwise Region.Before
  disjoint : (font :: regions size).Pairwise Region.Disjoint
  /-- From the first address for programs on there are no gaps, and no bytes behind the display. -/
  tiles : Tiles 512 (regions size) size
  /-- Each address there has its region. -/
  unique : ∀ a, 512 ≤ a → a < size →
    ∃ r ∈ font :: regions size, a ∈ r ∧ ∀ r' ∈ font :: regions size, a ∈ r' → r' = r
  font_eq : font = ⟨0, 80⟩
  /-- There is room for a program. -/
  size_program : 0 < (program size).size
  size_callStack : (callStack size).size = 48
  size_indexRegister : (indexRegister size).size = 48
  size_display : (display size).size = 256

/-! ## Tilings -/

variable {start stop a : Nat} {r r' : Region} {rs : List Region}

theorem Region.Before.disjoint (h : r.Before r') : r.Disjoint r' := by
  intro a ha ha'
  rw [Region.mem_iff] at ha ha'
  exact absurd (Nat.lt_of_lt_of_le ha.2 h) (Nat.not_lt.mpr ha'.1)

/-- No region of a tiling reaches out of it. -/
theorem Tiles.bounds (h : Tiles start rs stop) :
    start ≤ stop ∧ ∀ r ∈ rs, start ≤ r.start ∧ r.stop ≤ stop := by
  induction rs generalizing start with
  | nil => exact ⟨Nat.le_of_eq h, fun r hr => absurd hr List.not_mem_nil⟩
  | cons q rs ih =>
    obtain ⟨rfl, hq, hrest⟩ := h
    obtain ⟨hle, hall⟩ := ih hrest
    refine ⟨Nat.le_trans hq hle, fun r hr => ?_⟩
    rcases List.mem_cons.mp hr with rfl | hr
    · exact ⟨Nat.le_refl _, hle⟩
    · exact ⟨Nat.le_trans hq (hall r hr).1, (hall r hr).2⟩

theorem Tiles.before (h : Tiles start rs stop) : rs.Pairwise Region.Before := by
  induction rs generalizing start with
  | nil => exact .nil
  | cons q rs ih =>
    obtain ⟨-, -, hrest⟩ := h
    exact .cons (fun r hr => (hrest.bounds.2 r hr).1) (ih hrest)

/-- The addresses of a tiling are those between its ends. -/
theorem Tiles.exists_mem_iff (h : Tiles start rs stop) :
    (∃ r ∈ rs, a ∈ r) ↔ start ≤ a ∧ a < stop := by
  induction rs generalizing start with
  | nil =>
    have he : start = stop := h
    simp only [List.not_mem_nil, false_and, exists_false, false_iff]
    omega
  | cons q rs ih =>
    obtain ⟨rfl, hq, hrest⟩ := h
    have hle := hrest.bounds.1
    have hcons : (∃ r ∈ q :: rs, a ∈ r) ↔ a ∈ q ∨ ∃ r ∈ rs, a ∈ r := by simp
    rw [hcons, ih hrest, Region.mem_iff]
    omega

/-- Where regions are in order, an address is in no more than one. -/
theorem eq_of_mem (h : rs.Pairwise Region.Before) (hr : r ∈ rs) (hr' : r' ∈ rs) (ha : a ∈ r)
    (ha' : a ∈ r') : r' = r := by
  induction h with
  | nil => cases hr
  | @cons q rs hq _ ih =>
    rcases List.mem_cons.mp hr with rfl | hp
    · rcases List.mem_cons.mp hr' with rfl | hs
      · rfl
      · exact absurd ha' ((hq r' hs).disjoint a ha)
    · rcases List.mem_cons.mp hr' with rfl | hs
      · exact absurd ha ((hq r hp).disjoint a ha')
      · exact ih hp hs

/-! ## The regions of a memory -/

theorem isValid_iff_capacity (size : Nat) : IsValid size ↔ 0 < capacity size :=
  Nat.sub_pos_iff_lt.symm

/-- Where there is room for a program, no difference stops at zero. -/
theorem offsets_of_isValid {size : Nat} (h : IsValid size) :
    512 < callStackStart size ∧ indexSlot size = callStackStart size + 48
      ∧ displayStart size = indexSlot size + 48 ∧ size = displayStart size + 256 := by
  have hsize := (isValid_iff size).mp h
  have hdisplay := displayStart_eq size
  have hstack : callStackStart size = displayStart size - 96 := rfl
  have hslot : indexSlot size = callStackStart size + 48 := rfl
  omega

/-- So the regions above the font leave no gap. -/
theorem tiles_regions {size : Nat} (h : IsValid size) : Tiles 512 (regions size) size := by
  obtain ⟨hstack, hslot, hdisplay, hend⟩ := offsets_of_isValid h
  simp only [regions, Tiles, program, callStack, indexRegister, display, programStart, true_and,
    and_true]
  omega

theorem partition_of_isValid {size : Nat} (h : IsValid size) : Partition size := by
  have ht := tiles_regions h
  obtain ⟨hstack, hslot, hdisplay, hend⟩ := offsets_of_isValid h
  have hbefore : (font :: regions size).Pairwise Region.Before := by
    refine .cons (fun r hr => ?_) ht.before
    have hle := (ht.bounds.2 r hr).1
    dsimp only [Region.Before, font]
    omega
  exact {
    before := hbefore
    disjoint := hbefore.imp Region.Before.disjoint
    tiles := ht
    unique := by
      intro a hlo hhi
      obtain ⟨r, hr, ha⟩ := ht.exists_mem_iff.mpr ⟨hlo, hhi⟩
      have hmem := List.mem_cons_of_mem font hr
      exact ⟨r, hmem, ha, fun r' hr' ha' => eq_of_mem hbefore hmem hr' ha ha'⟩
    font_eq := rfl
    size_program := (isValid_iff_capacity size).mp h
    size_callStack := by
      simp only [Region.size, callStack]
      omega
    size_indexRegister := by
      simp only [Region.size, indexRegister]
      omega
    size_display := by
      simp only [Region.size, display]
      omega }

/-! ## The offsets, in words -/

/-- The numbers that a layout is kept as. -/
structure Offsets where
  size : Nat
  programStart : Nat
  programEnd : Nat
  callStackStart : Nat
  indexSlot : Nat
  displayStart : Nat
  deriving DecidableEq

/-- Where the regions of a memory start and end. -/
def offsets (size : Nat) : Offsets where
  size := (display size).stop
  programStart := (program size).start
  programEnd := (program size).stop
  callStackStart := (callStack size).start
  indexSlot := (indexRegister size).start
  displayStart := (display size).start

/-- The difference of two numbers, or zero where it would be below zero. -/
def monus (a b : Nat) : Checked Nat := if b ≤ a then Checked.sub a b else .ok 0

theorem monus_eq (a b : Nat) : monus a b = .ok (a - b) := by
  rw [monus]
  split
  · rename_i h
    exact Checked.sub_of_le h
  · rename_i h
    rw [Nat.sub_eq_zero_of_le (Nat.le_of_not_le h)]

/-- Compute the offsets in words that hold the numbers below `limit`. -/
def Offsets.compute (limit size : Nat) : Checked Offsets := do
  let displayStart ← monus size displayBytes
  let callStackStart ← monus displayStart reservedBytes
  let indexSlot ← Checked.add limit callStackStart stackBytes
  pure ⟨size, Layout.programStart, callStackStart, callStackStart, indexSlot, displayStart⟩

/-- The room for programs, computed from the offsets. -/
def Offsets.capacity (o : Offsets) : Checked Nat := monus o.programEnd o.programStart

/-- The one sum is taken below the display, where there is room for it. -/
theorem compute_eq {limit size : Nat} (h : size < limit) (h0 : stackBytes < limit) :
    Offsets.compute limit size = .ok (offsets size) := by
  have hd := displayStart_eq size
  have hsum : displayStart size - reservedBytes + stackBytes < limit := by
    dsimp only [stackBytes, stackDepth, reservedBytes] at h0 ⊢
    omega
  have hdisplay : monus size displayBytes = .ok (displayStart size) := by
    rw [monus_eq, hd]
    rfl
  rw [Offsets.compute, hdisplay, Checked.ok_bind, monus_eq, Checked.ok_bind,
    Checked.add_of_lt hsum]
  rfl

/--
**The regions partition memory at every size that has room for a program, and no offset is too
great or below zero at any size.**

The offsets are computed in words that can hold the size itself and the length of the call stack.
There is room exactly from 865 bytes on, and it is what 864 bytes of overhead leave. Then the font,
the program, the call stack, the slot of the index register and the display come one after the
other. No two of them share an address, and from the first byte of the program to the end of memory
there is no address without a region.
-/
theorem regions_partition_memory (size : Nat) :
    (∀ limit, size < limit → stackBytes < limit →
        Offsets.compute limit size = .ok (offsets size))
      ∧ (offsets size).capacity = .ok (capacity size)
      ∧ (IsValid size ↔ 865 ≤ size)
      ∧ (IsValid size ↔ 0 < capacity size)
      ∧ (capacity size : Int) = max 0 ((size : Int) - 864)
      ∧ (IsValid size → Partition size) := by
  refine ⟨fun limit h h0 => compute_eq h h0, monus_eq _ _, isValid_iff size,
    isValid_iff_capacity size, ?_, partition_of_isValid⟩
  rw [capacity_eq]
  omega

/-- Without any memory, and with as much of it as a word of 64 bits can count. The smallest memory
with room for a program has room for one byte. -/
theorem regions_partition_memory_at_both_ends :
    Offsets.compute 18446744073709551616 0 = .ok ⟨0, 512, 0, 0, 48, 0⟩
      ∧ Offsets.compute 18446744073709551616 18446744073709551615
        = .ok ⟨18446744073709551615, 512, 18446744073709551263, 18446744073709551263,
            18446744073709551311, 18446744073709551359⟩
      ∧ Partition 18446744073709551615
      ∧ Partition 865
      ∧ capacity 865 = 1
      ∧ ¬ IsValid 864 := by
  obtain ⟨hzero, -⟩ := regions_partition_memory 0
  obtain ⟨hgreat, -, hvalid, -, -, hpartition⟩ := regions_partition_memory 18446744073709551615
  obtain ⟨-, -, hvalid', -, hcapacity, hpartition'⟩ := regions_partition_memory 865
  obtain ⟨-, -, hsmall, -⟩ := regions_partition_memory 864
  refine ⟨?_, ?_, hpartition (hvalid.mpr (by decide)), hpartition' (hvalid'.mpr (by decide)),
    by omega, fun h => absurd (hsmall.mp h) (by decide)⟩
  · rw [hzero _ (by decide) (by decide)]
    simp only [offsets, display, program, callStack, indexRegister, indexSlot, callStackStart,
      displayStart_eq, programStart, stackBytes, stackDepth, reservedBytes]
  · rw [hgreat _ (by decide) (by decide)]
    simp only [offsets, display, program, callStack, indexRegister, indexSlot, callStackStart,
      displayStart_eq, programStart, stackBytes, stackDepth, reservedBytes]

end ChipEight.Layout
