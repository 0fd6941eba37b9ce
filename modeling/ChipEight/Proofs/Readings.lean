import ChipEight.Proofs.Plain.Screen

/-!
# All readings agree

A display can be read pixel by pixel, a row at a time, enlarged, as one run of bits or
as an image of one bit a pixel, and one can ask whether it is blank, or the same as another
one. Some of these find a pixel by counting bits and some by cutting the bytes up, and they
have to show the same picture.

The picture is `bitAt`, which says where among the bytes the bit for a pixel is. The rest is
about lists: `flatMap_blocks` says that blocks of equal length, one after the other, are one
run in which quotient and remainder tell the block and the place within it. Bytes are blocks
of eight pixels and a screen is a block of rows. In an enlarged row, and in the
enlarged rows, each entry has become a block of copies.
-/

namespace ChipEight.Display

variable {α : Type} (d : Display)

/-- The bit that stands for the pixel in column `x` of row `y`. -/
def bitAt (x y : Nat) : Bool := (d.bytes.toList.getD (8 * y + x / 8) 0).toNat.testBit (7 - x % 8)

/-! ## Blocks -/

/-- `n` blocks of `k` entries each are one run. -/
theorem flatMap_blocks (n k : Nat) (f : Nat → Nat → α) :
    (List.range n).flatMap (fun i => (List.range k).map (f i))
      = (List.range (n * k)).map fun j => f (j / k) (j % k) := by
  induction n with
  | zero =>
    rw [Nat.zero_mul]
    rfl
  | succ n ih =>
    have last : (List.range k).map (f n)
        = (List.range k).map fun j => f ((n * k + j) / k) ((n * k + j) % k) := by
      refine List.map_congr_left fun j hj => ?_
      have hj : j < k := List.mem_range.mp hj
      rw [Nat.mul_comm n, Nat.mul_add_div (Nat.zero_lt_of_lt hj), Nat.div_eq_of_lt hj,
        Nat.mul_add_mod, Nat.mod_eq_of_lt hj, Nat.add_zero]
    rw [List.range_succ, List.flatMap_append, ih, List.flatMap_singleton, last, Nat.succ_mul,
      List.range_add, List.map_append, List.map_map]
    rfl

/-- Where every entry is repeated, the blocks are its copies. -/
theorem flatMap_replicate (n s : Nat) (f : Nat → α) :
    ((List.range n).map f).flatMap (List.replicate s)
      = (List.range (n * s)).map fun j => f (j / s) := by
  have copies : ∀ i, List.replicate s (f i) = (List.range s).map fun _ => f i := by
    intro i
    rw [List.map_const', List.length_range]
  rw [List.flatMap_map]
  simp only [copies]
  exact flatMap_blocks n s fun i _ => f i

/-- A stretch of some bytes, one by one. -/
theorem take_drop_eq (l : List UInt8) {i n : Nat} (h : i + n ≤ l.length) :
    (l.drop i).take n = (List.range n).map fun j => l.getD (i + j) 0 := by
  have hlen : ((l.drop i).take n).length
      = ((List.range n).map fun j => l.getD (i + j) 0).length := by
    rw [List.length_take, List.length_drop, List.length_map, List.length_range]
    omega
  refine List.ext_getElem hlen fun j _ hj => ?_
  rw [List.getElem_take, List.getElem_drop, List.getElem_map, List.getElem_range]
  exact List.getElem_eq_getD 0

/-- The bits of a stretch of bytes. -/
theorem flatMap_bits {i n : Nat} (h : i + n ≤ 256) :
    ((d.bytes.toList.drop i).take n).flatMap bits
      = (List.range (n * 8)).map fun k =>
          (d.bytes.toList.getD (i + k / 8) 0).toNat.testBit (7 - k % 8) := by
  rw [take_drop_eq _ (by rw [Vector.length_toList]; exact h), List.flatMap_map]
  exact flatMap_blocks n 8 fun j k => (d.bytes.toList.getD (i + j) 0).toNat.testBit (7 - k)

/-- What is taken where a run holds true. -/
theorem filterMap_zipIdx (n : Nat) (p : Nat → Bool) (f : Nat → α) :
    ((List.range n).map p).zipIdx.filterMap (fun (lit, k) => if lit then some (f k) else none)
      = ((List.range n).filter p).map f := by
  have zipped : ((List.range n).map p).zipIdx = (List.range n).map fun k => (p k, k) := by
    refine List.ext_getElem ?_ fun k _ _ => ?_
    · rw [List.length_zipIdx, List.length_map, List.length_map]
    · rw [List.getElem_zipIdx, List.getElem_map, List.getElem_map, List.getElem_range, Nat.zero_add]
  rw [zipped, List.filterMap_map, ← List.filterMap_eq_map, List.filterMap_filter]
  rfl

/-! ## Rows and runs -/

theorem row_eq {y : Nat} (hy : y < 32) : d.row y = (List.range 64).map fun x => d.bitAt x y :=
  d.flatMap_bits (by omega)

theorem rows_eq :
    d.rows = (List.range 32).map fun y => (List.range 64).map fun x => d.bitAt x y :=
  List.map_congr_left fun _ hy => d.row_eq (List.mem_range.mp hy)

theorem scaled_eq (s : Nat) :
    d.scaled s = (List.range (32 * s)).map fun r =>
      (List.range (64 * s)).map fun c => d.bitAt (c / s) (r / s) := by
  rw [scaled, rows_eq, List.flatMap_map]
  simp only [flatMap_replicate]
  rw [← List.flatMap_map]
  exact flatMap_replicate 32 s _

theorem pixels_eq :
    d.pixels = (List.range 2048).map fun k => d.bitAt (k % 64) (k / 64) := by
  have hall : (d.bytes.toList.drop 0).take 256 = d.bytes.toList := by
    rw [List.drop_zero]
    exact List.take_of_length_le (Nat.le_of_eq Vector.length_toList)
  rw [pixels, ← hall, flatMap_bits d (by omega)]
  refine List.map_congr_left fun k _ => ?_
  have h1 : 8 * (k / 64) + k % 64 / 8 = 0 + k / 8 := by omega
  have h2 : k % 64 % 8 = k % 8 := by omega
  rw [bitAt, h1, h2]

theorem litPoints_eq :
    d.litPoints
      = ((List.range 2048).map fun k => (k % 64, k / 64)).filter fun p => d.bitAt p.1 p.2 := by
  rw [litPoints, pixels_eq, List.filter_map]
  exact filterMap_zipIdx 2048 (fun k => d.bitAt (k % 64) (k / 64)) fun k => (k % 64, k / 64)

/-! ## Pixel by pixel -/

theorem isLit_of_on_screen {x y : Nat} (hx : x < 64) (hy : y < 32) : d.isLit x y = d.bitAt x y := by
  rw [isLit_of_lt d hx hy, bitAt, ← List.getElem_eq_getD 0, Vector.getElem_toList]
  rw [Vector.length_toList]
  omega

variable (x y : Nat)

theorem pixel_eq : d.pixel x y = if x < 64 ∧ y < 32 then some (d.bitAt x y) else none := by
  by_cases h : x < 64 ∧ y < 32
  · rw [if_pos h, ← isLit_of_on_screen d h.1 h.2, isLit_of_lt d h.1 h.2, pixel_of_lt d h.1 h.2]
  · rw [pixel, dif_neg h, if_neg h]

theorem isLit_eq : d.isLit x y = (decide (x < 64 ∧ y < 32) && d.bitAt x y) := by
  by_cases h : x < 64 ∧ y < 32
  · rw [isLit_of_on_screen d h.1 h.2, decide_eq_true h]
    rfl
  · rw [isLit_eq_false d h, decide_eq_false h]
    rfl

/-- Displays that show the same are the same. -/
theorem eq_iff_bitAt (d' : Display) :
    d = d' ↔ ∀ x y, x < 64 → y < 32 → d.bitAt x y = d'.bitAt x y := by
  constructor
  · rintro rfl x y _ _
    rfl
  · intro h
    refine ext_isLit fun x y hx hy => ?_
    rw [isLit_of_on_screen d hx hy, h x y hx hy, isLit_of_on_screen d' hx hy]

theorem isBlank_iff_eq : d.isBlank = true ↔ d = blank := by
  rw [isBlank, Vector.all_eq_true]
  constructor
  · intro h
    have hb : d.bytes = Vector.replicate 256 0 := by
      refine Vector.ext fun i hi => ?_
      rw [Vector.getElem_replicate]
      exact eq_of_beq (h i hi)
    exact congrArg mk hb
  · rintro rfl i hi
    rw [blank, Vector.getElem_replicate]
    rfl

theorem bitAt_blank {x y : Nat} (hx : x < 64) (hy : y < 32) : blank.bitAt x y = false := by
  rw [← isLit_of_on_screen blank hx hy, isLit_of_lt blank hx hy, blank, Vector.getElem_replicate]
  exact Nat.zero_testBit _

theorem isBlank_iff : d.isBlank = true ↔ ∀ x y, x < 64 → y < 32 → d.bitAt x y = false := by
  rw [isBlank_iff_eq, eq_iff_bitAt]
  constructor
  · intro h x y hx hy
    rw [h x y hx hy, bitAt_blank hx hy]
  · intro h x y hx hy
    rw [h x y hx hy, bitAt_blank hx hy]

/-! ## Images -/

/-- An image of one bit a pixel, row after row. Each row has as many whole bytes as it needs, and
begins with the most significant bit of the first. Bits left over at its end are no pixels. -/
def readRows (bytes : List UInt8) (width height : Nat) : List Bool :=
  (List.range height).flatMap fun y =>
    (((bytes.drop ((width + 7) / 8 * y)).take ((width + 7) / 8)).flatMap bits).take width

/-- A reader of images takes them to be of this kind, where there are enough bytes. -/
def ReadsByRows (read : List UInt8 → Nat → Nat → List Bool) : Prop :=
  ∀ bytes width height, bytes.length = (width + 7) / 8 * height →
    read bytes width height = readRows bytes width height

/-- Such a reader finds all pixels in one run. -/
theorem ReadsByRows.read_eq {read : List UInt8 → Nat → Nat → List Bool} (h : ReadsByRows read) :
    read d.bytes.toList width height = d.pixels := by
  have hrow : ∀ y ∈ List.range 32,
      (d.row y).take 64 = (List.range 64).map fun x => d.bitAt x y := by
    intro y hy
    have hlen : ((List.range 64).map fun x => d.bitAt x y).length = 64 := by
      rw [List.length_map, List.length_range]
    rw [row_eq d (List.mem_range.mp hy)]
    exact List.take_of_length_le (Nat.le_of_eq hlen)
  calc read d.bytes.toList width height
      = (List.range 32).flatMap fun y => (d.row y).take 64 :=
        h d.bytes.toList 64 32 Vector.length_toList
    _ = (List.range 32).flatMap fun y => (List.range 64).map fun x => d.bitAt x y :=
        by rw [List.flatMap_def, List.flatMap_def, List.map_congr_left hrow]
    _ = d.pixels := by
        rw [pixels_eq]
        exact flatMap_blocks 32 64 fun y x => d.bitAt x y

/--
**All readings of a display show the same picture.**

A pixel on the screen is its bit, also where it is found by counting bits, and off the
screen there is none and nothing is lit. Enlarged `s` times there are `32 * s` rows of
`64 * s` pixels, and the one in row `r` and column `c` is the one that was in row `r / s`
and column `c / s`; so nothing is left of it if `s` is zero. The run of all pixels has
2048 of them, row after row, and a reader of images that goes by rows finds the same. A
display is blank if no pixel is lit, and two are equal if all their pixels are.
-/
theorem readings_agree (d : Display) :
    (∀ x y, d.pixel x y = if x < 64 ∧ y < 32 then some (d.bitAt x y) else none)
      ∧ (∀ limit x y, 2048 ≤ limit → Screen.pixel limit d.bytes.toList x y
          = .ok (if x < 64 ∧ y < 32 then some (d.bitAt x y) else none))
      ∧ (∀ x y, d.isLit x y = (decide (x < 64 ∧ y < 32) && d.bitAt x y))
      ∧ (∀ s, d.scaled s = (List.range (32 * s)).map fun r =>
          (List.range (64 * s)).map fun c => d.bitAt (c / s) (r / s))
      ∧ d.pixels = (List.range 2048).map (fun k => d.bitAt (k % 64) (k / 64))
      ∧ d.litPoints = ((List.range 2048).map fun k => (k % 64, k / 64)).filter
          (fun p => d.bitAt p.1 p.2)
      ∧ (∀ read, ReadsByRows read → read d.bytes.toList width height = d.pixels)
      ∧ (d.isBlank = true ↔ ∀ x y, x < 64 → y < 32 → d.bitAt x y = false)
      ∧ ∀ d' : Display, d = d' ↔ ∀ x y, x < 64 → y < 32 → d.bitAt x y = d'.bitAt x y := by
  refine ⟨d.pixel_eq, fun limit x y hlimit => ?_, d.isLit_eq, d.scaled_eq, d.pixels_eq,
    d.litPoints_eq, fun read hr => hr.read_eq d, d.isBlank_iff, d.eq_iff_bitAt⟩
  rw [Screen.pixel_toList hlimit, pixel_eq]

/-- With one pixel lit, in the upper left corner. -/
theorem readings_agree_in_corner :
    ∃ d : Display, d = blank.setByte 0 0x80
      ∧ Screen.pixel 2048 d.bytes.toList 0 0 = .ok (some true)
      ∧ readRows d.bytes.toList width height = d.pixels
      ∧ d.isBlank = false
      ∧ d ≠ blank := by
  obtain ⟨d, hd⟩ : ∃ d : Display, d = blank.setByte 0 0x80 := ⟨_, rfl⟩
  obtain ⟨-, hbit, -, -, -, -, hread, hblank, heq⟩ := readings_agree d
  have lit : d.bitAt 0 0 = true := by
    rw [hd, ← isLit_of_on_screen _ (by decide) (by decide),
      isLit_of_lt _ (by decide) (by decide)]
    show (blank.bytes.setIfInBounds 0 0x80)[0].toNat.testBit 7 = true
    rw [Vector.getElem_setIfInBounds_self]
    decide
  refine ⟨d, hd, ?_, hread readRows fun _ _ _ _ => rfl, ?_, ?_⟩
  · rw [hbit 2048 0 0 (Nat.le_refl _), lit]
    rfl
  · refine Bool.eq_false_iff.mpr fun h => ?_
    rw [hblank.mp h 0 0 (by decide) (by decide)] at lit
    cases lit
  · intro h
    rw [(heq blank).mp h 0 0 (by decide) (by decide)] at lit
    cases lit

end ChipEight.Display
