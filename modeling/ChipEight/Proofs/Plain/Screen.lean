import ChipEight.Proofs.Pixels
import ChipEight.Proofs.Plain.Access

/-!
# The screen on plain data

The pixels in a list of bytes, found by counting bits. A pixel that is off the screen
is neither read nor written, and drawing goes on from pixel to pixel until it comes to
the right edge, and from row to row until it comes to the bottom.

On the bytes of a `Display` this is what the display does, and no access on the way is
out of range: `pixel_toList` for reading and `draw_toList` for drawing.
-/

namespace ChipEight.Screen

open Checked

variable (limit : Nat)

/-- Where the pixel in column `x` of row `y` is, counted in bits. -/
def bitIndex (x y : Nat) : Checked (Option Nat) :=
  if x < 64 ∧ y < 32 then do
    let row ← mul limit y 64
    let i ← add limit row x
    pure (some i)
  else pure none

/-- Bit `i` of some bytes, the most significant first. -/
def bit? (bytes : List UInt8) (i : Nat) : Option Bool :=
  bytes[i / 8]?.map fun b => b.toNat.testBit (7 - i % 8)

/-- The bytes with bit `i` given a value. -/
def setBit (bytes : List UInt8) (i : Nat) (value : Bool) : List UInt8 :=
  let mask := Display.mask (7 - i % 8)
  bytes.modify (i / 8) fun b => if value then b ||| mask else b &&& ~~~mask

def pixel (bytes : List UInt8) (x y : Nat) : Checked (Option Bool) := do
  let i? ← bitIndex limit x y
  pure (i?.bind (bit? bytes))

/-- The bytes with a pixel given a value, if that is on the screen. -/
def setPixel (bytes : List UInt8) (x y : Nat) (value : Bool) : Checked (List UInt8) := do
  match ← bitIndex limit x y with
  | none => pure bytes
  | some i => pure (setBit bytes i value)

/-- Draw the bits of one row from bit `dx` on, and tell whether a pixel was switched off. -/
def drawBits (x y : Nat) : (dx : Nat) → List Bool → List UInt8 → Checked (List UInt8 × Bool)
  | _, [], bytes => pure (bytes, false)
  | dx, lit :: row, bytes => do
    let px ← add limit x dx
    if 64 ≤ px then pure (bytes, false)
    else if lit then do
      let p ← pixel limit bytes px y
      let was := p.getD false
      let bytes ← setPixel limit bytes px y !was
      let (bytes, hit) ← drawBits x y (dx + 1) row bytes
      pure (bytes, was || hit)
    else drawBits x y (dx + 1) row bytes

def drawRows (x y : Nat) : (dy : Nat) → List UInt8 → List UInt8 → Checked (List UInt8 × Bool)
  | _, [], bytes => pure (bytes, false)
  | dy, row :: sprite, bytes => do
    let py ← add limit y dy
    if 32 ≤ py then pure (bytes, false)
    else do
      let (bytes, hit) ← drawBits limit x py 0 (Display.bits row) bytes
      let (bytes, hit') ← drawRows x y (dy + 1) sprite bytes
      pure (bytes, hit || hit')

def draw (bytes : List UInt8) (x y : Nat) (sprite : List UInt8) : Checked (List UInt8 × Bool) :=
  drawRows limit x y 0 sprite bytes

/-! ## On the bytes of a display -/

variable {limit} {d : Display} {x y : Nat}

theorem bitIndex_of_lt (hlimit : 2048 ≤ limit) (hx : x < 64) (hy : y < 32) :
    bitIndex limit x y = .ok (some (y * 64 + x)) := by
  rw [bitIndex, if_pos ⟨hx, hy⟩, mul_of_lt (by omega), ok_bind, add_of_lt (by omega)]
  rfl

theorem bitIndex_of_not (h : ¬(x < 64 ∧ y < 32)) : bitIndex limit x y = .ok none := if_neg h

/-- **Every pixel can be asked for, on the screen and off it.** -/
theorem pixel_toList (hlimit : 2048 ≤ limit) (d : Display) (x y : Nat) :
    pixel limit d.bytes.toList x y = .ok (d.pixel x y) := by
  rw [pixel]
  by_cases h : x < 64 ∧ y < 32
  · have h1 : (y * 64 + x) / 8 = 8 * y + x / 8 := by omega
    have h2 : (y * 64 + x) % 8 = x % 8 := by omega
    rw [bitIndex_of_lt hlimit h.1 h.2, ok_bind, Display.pixel_of_lt d h.1 h.2, Option.bind_some,
      bit?, h1, h2, List.getElem?_eq_getElem (by rw [Vector.length_toList]; omega), Vector.getElem_toList]
    rfl
  · rw [bitIndex_of_not h, ok_bind, Display.pixel, dif_neg h]
    rfl

/-- To set the bit where it is off and clear it where it is on is to flip it. -/
theorem set_or_clear (b : UInt8) (k : Nat) :
    (if !b.toNat.testBit k then b ||| Display.mask k else b &&& ~~~Display.mask k)
      = b ^^^ Display.mask k := by
  refine Display.byte_ext fun j hj => ?_
  have hm : (Display.mask k).toNat.testBit j = decide (k = j) := Display.testBit_mask hj
  have hn : (~~~Display.mask k).toNat.testBit j = !decide (k = j) := by
    rw [UInt8.toNat_not, UInt8.size, Nat.sub_sub, Nat.add_comm 1,
      Nat.testBit_two_pow_sub_succ (UInt8.toNat_lt _), hm]
    simp [hj]
  rw [UInt8.toNat_xor, Nat.testBit_xor, hm]
  cases hb : b.toNat.testBit k with
  | true =>
    rw [Bool.not_true, if_neg nofun, UInt8.toNat_and, Nat.testBit_and, hn]
    by_cases h : k = j
    · simp [← h, hb]
    · simp [h]
  | false =>
    rw [Bool.not_false, if_pos rfl, UInt8.toNat_or, Nat.testBit_or, hm]
    by_cases h : k = j
    · simp [← h, hb]
    · simp [h]

theorem setPixel_toList (hlimit : 2048 ≤ limit) (hx : x < 64) (hy : y < 32) :
    setPixel limit d.bytes.toList x y (!d.isLit x y) = .ok (d.toggle x y).bytes.toList := by
  have hd : d.toggle x y = ⟨d.bytes.set (8 * y + x / 8)
      (d.bytes[8 * y + x / 8] ^^^ Display.mask (7 - x % 8))⟩ := dif_pos (by omega)
  have h1 : (y * 64 + x) / 8 = 8 * y + x / 8 := by omega
  have h2 : (y * 64 + x) % 8 = x % 8 := by omega
  have hb : setBit d.bytes.toList (y * 64 + x) (!d.isLit x y) = (d.toggle x y).bytes.toList := by
    rw [hd, Vector.toList_set, setBit, h1, h2, Display.isLit_of_lt d hx hy, List.modify_eq_set,
      List.getElem?_eq_getElem (by rw [Vector.length_toList]; omega), Option.getD_some,
      Vector.getElem_toList]
    simp only [set_or_clear]
  rw [setPixel, bitIndex_of_lt hlimit hx hy, ok_bind, ← hb]
  rfl

theorem drawBits_toList (hlimit : 2048 ≤ limit) (hy : y < 32) (dx : Nat) (row : List Bool)
    (hx : x + dx + row.length < limit) :
    drawBits limit x y dx row d.bytes.toList
      = .ok ((d.toggles y (x + dx) row).bytes.toList, d.hits y (x + dx) row) := by
  induction row generalizing d dx with
  | nil => rfl
  | cons lit row ih =>
    rw [List.length_cons] at hx
    rw [drawBits, add_of_lt (by omega), ok_bind]
    split
    · rename_i h
      rw [Display.toggles_of_le h, Display.hits_of_le h]
      rfl
    · rename_i h
      have hrest := fun d => ih (d := d) (dx + 1) (by omega)
      rw [← Nat.add_assoc] at hrest
      cases lit with
      | false => rw [if_neg nofun, hrest]; rfl
      | true =>
        rw [if_pos rfl, pixel_toList hlimit, ok_bind, ← Display.isLit]
        dsimp only
        rw [setPixel_toList hlimit (by omega) hy, ok_bind, hrest, ok_bind,
          Display.hits_toggle (by omega)]
        rfl

theorem drawRows_toList (hlimit : 2048 ≤ limit) (dy : Nat) (sprite : List UInt8)
    (hx : x + 8 < limit) (hy : y + dy < limit) :
    drawRows limit x y dy sprite d.bytes.toList
      = .ok ((d.draw x (y + dy) sprite).bytes.toList, d.collides x (y + dy) sprite) := by
  induction sprite generalizing d dy with
  | nil => rfl
  | cons row sprite ih =>
    rw [drawRows, add_of_lt hy, ok_bind]
    split
    · rename_i h
      rw [Display.draw_of_le h, Display.collides_of_le h]
      rfl
    · rename_i h
      have hlen : (Display.bits row).length = 8 := rfl
      rw [drawBits_toList hlimit (by omega) 0 _ (by rw [hlen]; exact hx), ok_bind, Nat.add_zero,
        Display.toggles_bits, Display.hits_bits]
      dsimp only
      rw [ih (dy + 1) (by omega), ok_bind, ← Nat.add_assoc, Display.collides_drawRow (by omega)]
      rfl

/-- **Drawing stays within the screen, wherever the sprite is.** -/
theorem draw_toList (hlimit : 2048 ≤ limit) (d : Display) (x y : UInt8) (sprite : List UInt8) :
    draw limit d.bytes.toList x.toNat y.toNat sprite
      = .ok ((d.draw x.toNat y.toNat sprite).bytes.toList,
          d.collides x.toNat y.toNat sprite) := by
  have hx := x.toNat_lt
  have hy := y.toNat_lt
  exact drawRows_toList hlimit 0 sprite (by omega) (by omega)

end ChipEight.Screen
