/-!
# The display

64 by 32 pixels, each on or off, in 256 bytes: rows from top to bottom, eight bytes to a row,
and in each byte the leftmost pixel is the most significant bit. `pixel` is the meaning of
those bytes; everything else here is another way to read them (a row at a time, enlarged, as
one run of bits, or only whether anything is on).
-/

namespace ChipEight

/-- The pixels, packed eight to a byte. -/
structure Display where
  bytes : Vector UInt8 256
  deriving DecidableEq

namespace Display

/-- Pixels in a row. -/
def width : Nat := 64

/-- Rows on the screen. -/
def height : Nat := 32

/-- Every pixel off. -/
def blank : Display := ⟨Vector.replicate 256 0⟩

/-- The pixel in column `x` of row `y`, if that is on the screen. -/
def pixel (d : Display) (x y : Nat) : Option Bool :=
  if h : x < 64 ∧ y < 32 then
    some ((d.bytes[8 * y + x / 8]).toNat.testBit (7 - x % 8))
  else
    none

/-- Whether a pixel is on. Nothing is on outside of the screen. -/
def isLit (d : Display) (x y : Nat) : Bool := (d.pixel x y).getD false

/-- Whether every pixel is off. -/
def isBlank (d : Display) : Bool := d.bytes.all (· == 0)

/-- The eight pixels of a byte, from left to right. -/
def bits (b : UInt8) : List Bool := (List.range 8).map fun k => b.toNat.testBit (7 - k)

/-- All pixels in one run, row after row. -/
def pixels (d : Display) : List Bool := d.bytes.toList.flatMap bits

/-- The pixels of row `y`, from left to right; nothing below the screen. -/
def row (d : Display) (y : Nat) : List Bool := ((d.bytes.toList.drop (8 * y)).take 8).flatMap bits

/-- The rows, from top to bottom. -/
def rows (d : Display) : List (List Bool) := (List.range height).map d.row

/-- The rows of the display enlarged: every pixel becomes a square of `scale` by `scale`. -/
def scaled (d : Display) (scale : Nat) : List (List Bool) :=
  d.rows.flatMap fun r => List.replicate scale (r.flatMap (List.replicate scale))

/-- Where the lit pixels are, column before row, in the order of `pixels`. -/
def litPoints (d : Display) : List (Nat × Nat) :=
  d.pixels.zipIdx.filterMap fun (lit, k) => if lit then some (k % width, k / width) else none

/-- The display with byte `i` replaced. -/
def setByte (d : Display) (i : Nat) (b : UInt8) : Display := ⟨d.bytes.setIfInBounds i b⟩

theorem pixel_of_lt (d : Display) {x y : Nat} (hx : x < 64) (hy : y < 32) :
    d.pixel x y = some ((d.bytes[8 * y + x / 8]).toNat.testBit (7 - x % 8)) := by
  rw [pixel, dif_pos ⟨hx, hy⟩]

theorem isLit_of_lt (d : Display) {x y : Nat} (hx : x < 64) (hy : y < 32) :
    d.isLit x y = (d.bytes[8 * y + x / 8]).toNat.testBit (7 - x % 8) := by
  rw [isLit, pixel_of_lt d hx hy, Option.getD_some]

theorem isLit_eq_false (d : Display) {x y : Nat} (h : ¬(x < 64 ∧ y < 32)) :
    d.isLit x y = false := by
  rw [isLit, pixel, dif_neg h, Option.getD_none]

end Display

end ChipEight
