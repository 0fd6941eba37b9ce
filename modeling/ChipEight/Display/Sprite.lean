import ChipEight.Display.Basic

/-!
# Drawing sprites

A sprite is a list of bytes, one for each of its rows, eight pixels wide. Drawing it at `(x, y)`
flips every pixel of the display that lies under a lit pixel of the sprite. What would fall off
the right or the bottom edge is left out; nothing comes round on the other side.

A row of a sprite covers two neighbouring bytes of the display, in part. `leftPart` and
`rightPart` are what it flips in each of them, so drawing is a handful of exclusive ors and
never looks at a single bit. `isLit_draw` says that it does what the first paragraph says.
-/

namespace ChipEight

namespace Display

/-- What a row of a sprite that starts in column `x` flips in the byte which holds column `x`. -/
def leftPart (x : Nat) (row : UInt8) : UInt8 := UInt8.ofNat (row.toNat >>> (x % 8))

/-- What it flips in the byte to the right of that one. -/
def rightPart (x : Nat) (row : UInt8) : UInt8 := UInt8.ofNat (row.toNat <<< (8 - x % 8))

/-- Flip pixels in one byte of row `y`. A byte off the screen has none. -/
def flip (d : Display) (column y : Nat) (mask : UInt8) : Display :=
  if h : column < 8 ∧ y < 32 then
    ⟨d.bytes.set (8 * y + column) (d.bytes[8 * y + column] ^^^ mask)⟩
  else
    d

/-- Whether `flip` would switch a pixel off. -/
def meets (d : Display) (column y : Nat) (mask : UInt8) : Bool :=
  if h : column < 8 ∧ y < 32 then d.bytes[8 * y + column] &&& mask != 0 else false

/-- Draw one row of a sprite. -/
def drawRow (d : Display) (x y : Nat) (row : UInt8) : Display :=
  (d.flip (x / 8) y (leftPart x row)).flip (x / 8 + 1) y (rightPart x row)

/-- Draw a sprite with its top left corner in column `x` of row `y`. -/
def draw (d : Display) (x y : Nat) : List UInt8 → Display
  | [] => d
  | row :: sprite => (d.drawRow x y row).draw x (y + 1) sprite

/-- Whether drawing a sprite switches any pixel off. Its rows lie in different rows of the
display, so each can be held against the display as it was before. -/
def collides (d : Display) (x y : Nat) : List UInt8 → Bool
  | [] => false
  | row :: sprite =>
    d.meets (x / 8) y (leftPart x row) || d.meets (x / 8 + 1) y (rightPart x row) ||
      d.collides x (y + 1) sprite

/-- Whether a sprite with its top left corner at `(x, y)` has a lit pixel at `(px, py)`. -/
def covers (x y : Nat) (sprite : List UInt8) (px py : Nat) : Bool :=
  decide (y ≤ py ∧ x ≤ px ∧ px < x + 8) &&
    (sprite[py - y]?.getD 0).toNat.testBit (7 - (px - x))

/-! ## What drawing does to a pixel -/

theorem testBit_eq_false (b : UInt8) {k : Nat} (h : 8 ≤ k) : b.toNat.testBit k = false :=
  Nat.testBit_lt_two_pow (Nat.lt_of_lt_of_le b.toNat_lt (Nat.pow_le_pow_right (by decide) h))

theorem testBit_leftPart (x k : Nat) (row : UInt8) (hk : k < 8) :
    (leftPart x row).toNat.testBit k = row.toNat.testBit (x % 8 + k) := by
  rw [leftPart, UInt8.toNat_ofNat', Nat.testBit_mod_two_pow, Nat.testBit_shiftRight]
  simp [hk]

theorem testBit_rightPart (x k : Nat) (row : UInt8) (hk : k < 8) :
    (rightPart x row).toNat.testBit k =
      (decide (8 - x % 8 ≤ k) && row.toNat.testBit (k - (8 - x % 8))) := by
  rw [rightPart, UInt8.toNat_ofNat', Nat.testBit_mod_two_pow, Nat.testBit_shiftLeft]
  simp [hk]

/-- Flipping changes the pixels under the mask and no other. -/
theorem isLit_flip (d : Display) (column y : Nat) (mask : UInt8) {px py : Nat}
    (hx : px < 64) (hy : py < 32) :
    (d.flip column y mask).isLit px py =
      (d.isLit px py ^^
        (decide (px / 8 = column ∧ py = y) && mask.toNat.testBit (7 - px % 8))) := by
  rw [isLit_of_lt _ hx hy, isLit_of_lt _ hx hy, flip]
  split
  · next h =>
    rw [Vector.getElem_set]
    by_cases hc : px / 8 = column ∧ py = y
    · obtain ⟨rfl, rfl⟩ := hc
      simp
    · rw [if_neg (by omega)]
      simp [hc]
  · next h =>
    have : ¬(px / 8 = column ∧ py = y) := by omega
    simp [this]

/-- Drawing one row flips the pixels under its lit ones. -/
theorem isLit_drawRow (d : Display) (x y : Nat) (row : UInt8) {px py : Nat}
    (hx : px < 64) (hy : py < 32) :
    (d.drawRow x y row).isLit px py =
      (d.isLit px py ^^
        (decide (py = y ∧ x ≤ px ∧ px < x + 8) && row.toNat.testBit (7 - (px - x)))) := by
  rw [drawRow, isLit_flip _ _ _ _ hx hy, isLit_flip _ _ _ _ hx hy,
    testBit_leftPart _ _ _ (by omega), testBit_rightPart _ _ _ (by omega), Bool.xor_assoc]
  congr 1
  by_cases hl : px / 8 = x / 8
  · have hr : px / 8 ≠ x / 8 + 1 := by omega
    by_cases hp : x ≤ px
    · have : x % 8 + (7 - px % 8) = 7 - (px - x) := by omega
      have : px < x + 8 := by omega
      simp [*]
    · have : row.toNat.testBit (x % 8 + (7 - px % 8)) = false := testBit_eq_false _ (by omega)
      simp [*]
  · by_cases hr : px / 8 = x / 8 + 1
    · by_cases hp : px < x + 8
      · have : 7 - px % 8 - (8 - x % 8) = 7 - (px - x) := by omega
        have : 8 - x % 8 ≤ 7 - px % 8 := by omega
        have : x ≤ px := by omega
        simp [*]
      · have : ¬ 8 - x % 8 ≤ 7 - px % 8 := by omega
        simp [*]
    · have : ¬(x ≤ px ∧ px < x + 8) := by omega
      simp [hl, hr, this]

theorem covers_nil (x y px py : Nat) : covers x y [] px py = false := by
  simp [covers]

/-- The first row of a sprite, and the others a row below. -/
theorem covers_cons (x y : Nat) (row : UInt8) (sprite : List UInt8) (px py : Nat) :
    covers x y (row :: sprite) px py =
      ((decide (py = y ∧ x ≤ px ∧ px < x + 8) && row.toNat.testBit (7 - (px - x))) ^^
        covers x (y + 1) sprite px py) := by
  rcases Nat.lt_trichotomy py y with h | rfl | h
  · have h1 : ¬ y ≤ py := by omega
    have h2 : ¬ y + 1 ≤ py := by omega
    have h3 : py ≠ y := by omega
    simp [covers, h1, h2, h3]
  · have h : ¬ py + 1 ≤ py := by omega
    simp [covers, h]
  · obtain ⟨k, rfl⟩ : ∃ k, py = y + 1 + k := ⟨py - (y + 1), by omega⟩
    have h1 : y + 1 + k - y = k + 1 := by omega
    have h2 : y + 1 + k ≠ y := by omega
    have h3 : y ≤ y + 1 + k := by omega
    simp [covers, h1, h2, h3]

/-- **Drawing is an exclusive or with the sprite, pixel by pixel.** -/
theorem isLit_draw (d : Display) (x y : Nat) (sprite : List UInt8) {px py : Nat}
    (hx : px < 64) (hy : py < 32) :
    (d.draw x y sprite).isLit px py = (d.isLit px py ^^ covers x y sprite px py) := by
  induction sprite generalizing d y with
  | nil => simp [draw, covers_nil]
  | cons row sprite ih =>
    rw [draw, ih, isLit_drawRow _ _ _ _ hx hy, covers_cons, Bool.xor_assoc]

end Display

end ChipEight
