import ChipEight.Layout

/-!
# The font

Sixteen glyphs, one for each hexadecimal digit, four pixels wide and five rows high. They
stand at the very start of memory, one after the other, so the glyph of a digit is found by
multiplying.
-/

namespace ChipEight.Font

/-- Rows of a glyph. -/
def glyphHeight : Nat := 5

/-- The rows of all glyphs, from that of 0 to that of F. -/
def table : Vector UInt8 80 :=
  #v[0xF0, 0x90, 0x90, 0x90, 0xF0,
     0x20, 0x60, 0x20, 0x20, 0x70,
     0xF0, 0x10, 0xF0, 0x80, 0xF0,
     0xF0, 0x10, 0xF0, 0x10, 0xF0,
     0x90, 0x90, 0xF0, 0x10, 0x10,
     0xF0, 0x80, 0xF0, 0x10, 0xF0,
     0xF0, 0x80, 0xF0, 0x90, 0xF0,
     0xF0, 0x10, 0x20, 0x40, 0x40,
     0xF0, 0x90, 0xF0, 0x90, 0xF0,
     0xF0, 0x90, 0xF0, 0x10, 0xF0,
     0xF0, 0x90, 0xF0, 0x90, 0x90,
     0xE0, 0x90, 0xE0, 0x90, 0xE0,
     0xF0, 0x80, 0x80, 0x80, 0xF0,
     0xE0, 0x90, 0x90, 0x90, 0xE0,
     0xF0, 0x80, 0xF0, 0x80, 0xF0,
     0xF0, 0x80, 0xF0, 0x80, 0x80]

/-- Where the glyph of a digit starts. Only the low nibble of `digit` counts. -/
def glyphAddress (digit : UInt8) : UInt16 := UInt16.ofNat (glyphHeight * (digit.toNat % 16))

/-- The rows of a digit's glyph. -/
def glyph (digit : Fin 16) : List UInt8 := (table.toList.drop (glyphHeight * digit.val)).take glyphHeight

theorem toNat_glyphAddress (digit : UInt8) : (glyphAddress digit).toNat = 5 * (digit.toNat % 16) := by
  simp only [glyphAddress, glyphHeight, UInt16.toNat_ofNat']
  omega

/-- Every glyph lies within the bytes set aside for the font. -/
theorem glyphAddress_add_le (digit : UInt8) :
    (glyphAddress digit).toNat + glyphHeight ≤ Layout.font.stop := by
  simp only [toNat_glyphAddress, glyphHeight, Layout.font]
  omega

end ChipEight.Font
