import ChipEight.Proofs.Readings

/-!
# What a sprite leaves on the screen

A sprite is drawn by exclusive ors on whole bytes of the display, two for each of its
rows, or else pixel by pixel in two loops that break off at the edges. Neither is easy to
see through: the one cuts a row in two at a place that depends on where the sprite
is, and the other reads pixels while it flips them.

`draw_clipped_xor` says what both leave behind. A pixel is flipped where the sprite covers
it and otherwise it is as it was, so nothing that falls off one edge comes back at another. The
pixels that count for a collision are those that were lit before anything was drawn, and
they are the ones that are switched off. A sprite that is drawn twice leaves nothing behind
(`draw_draw`).
-/

namespace ChipEight.Display

variable (d : Display) (x y : Nat) (sprite : List UInt8) {px py : Nat}

/-- The pixels a sprite covers are the bits that are set in it, from its top left corner on. -/
theorem covers_eq (px py : Nat) :
    covers x y sprite px py =
      if h : y ≤ py ∧ py < y + sprite.length ∧ x ≤ px ∧ px < x + 8 then
        sprite[py - y].toNat.testBit (7 - (px - x))
      else false := by
  rw [covers]
  split
  · rename_i h
    rw [decide_eq_true ⟨h.1, h.2.2⟩, List.getElem?_eq_getElem (by omega)]
    rfl
  · rename_i h
    rw [Bool.and_eq_false_iff]
    by_cases hr : y ≤ py ∧ x ≤ px ∧ px < x + 8
    · -- the sprite has come to its end
      rw [List.getElem?_eq_none (by omega)]
      exact .inr (Nat.zero_testBit _)
    · exact .inl (decide_eq_false hr)

theorem bitAt_draw (hx : px < 64) (hy : py < 32) :
    (d.draw x y sprite).bitAt px py = (d.bitAt px py ^^ covers x y sprite px py) := by
  rw [← isLit_of_on_screen _ hx hy, isLit_draw d x y sprite hx hy, isLit_of_on_screen d hx hy]

/-- A sprite that is drawn a second time is gone. -/
theorem draw_draw : (d.draw x y sprite).draw x y sprite = d := by
  refine (eq_iff_bitAt _ d).mpr fun px py hx hy => ?_
  rw [bitAt_draw _ x y sprite hx hy, bitAt_draw d x y sprite hx hy, Bool.xor_assoc, Bool.xor_self,
    Bool.xor_false]

/-- A collision is found on the screen, where a bit was set before. -/
theorem collides_iff_bitAt :
    d.collides x y sprite = true ↔
      ∃ px py, px < 64 ∧ py < 32 ∧ d.bitAt px py = true ∧ covers x y sprite px py = true := by
  rw [collides_iff]
  refine exists_congr fun px => exists_congr fun py => ?_
  constructor
  · rintro ⟨hl, hc⟩
    obtain ⟨hx, hy⟩ := isLit_lt hl
    rw [isLit_of_on_screen d hx hy] at hl
    exact ⟨hx, hy, hl, hc⟩
  · rintro ⟨hx, hy, hl, hc⟩
    rw [← isLit_of_on_screen d hx hy] at hl
    exact ⟨hl, hc⟩

/-- The pixels that are covered and were lit are the ones that are switched off. -/
theorem covers_iff_switched_off (hx : px < 64) (hy : py < 32) (hl : d.bitAt px py = true) :
    covers x y sprite px py = true ↔ (d.draw x y sprite).bitAt px py = false := by
  rw [bitAt_draw d x y sprite hx hy, hl, Bool.true_xor, Bool.not_eq_false']

/--
**Drawing a sprite is an exclusive or with what of it is on the screen.**

A pixel is flipped where the sprite covers it, and a sprite covers a pixel where it has a row for
it and a bit that is set. So only pixels within its own eight columns and as many rows as it
has can change. There is a collision exactly when some pixel that was lit is covered, which
is to say that it is switched off. The loops that go from pixel to pixel come to this display
and to this collision, wherever the sprite begins and however long it is, and no index on the
way is out of range or too large.
-/
theorem draw_clipped_xor (d : Display) (x y : Nat) (sprite : List UInt8) :
    (∀ px py, px < 64 → py < 32 →
        (d.draw x y sprite).bitAt px py = (d.bitAt px py ^^ covers x y sprite px py))
      ∧ (∀ px py, covers x y sprite px py =
          if h : y ≤ py ∧ py < y + sprite.length ∧ x ≤ px ∧ px < x + 8 then
            sprite[py - y].toNat.testBit (7 - (px - x))
          else false)
      ∧ (∀ px py, px < 64 → py < 32 → (d.draw x y sprite).bitAt px py ≠ d.bitAt px py →
          y ≤ py ∧ py < y + sprite.length ∧ x ≤ px ∧ px < x + 8)
      ∧ (d.collides x y sprite = true ↔
          ∃ px py, px < 64 ∧ py < 32 ∧ d.bitAt px py = true ∧ covers x y sprite px py = true)
      ∧ (d.collides x y sprite = true ↔
          ∃ px py, px < 64 ∧ py < 32 ∧ d.bitAt px py = true
            ∧ (d.draw x y sprite).bitAt px py = false)
      ∧ ∀ limit, 2048 ≤ limit → x + 8 < limit → y < limit →
          Screen.draw limit d.bytes.toList x y sprite
            = .ok ((d.draw x y sprite).bytes.toList, d.collides x y sprite) := by
  refine ⟨fun px py => bitAt_draw d x y sprite, covers_eq x y sprite, ?_,
    collides_iff_bitAt d x y sprite, ?_, ?_⟩
  · intro px py hx hy hne
    rw [bitAt_draw d x y sprite hx hy] at hne
    refine Decidable.byContradiction fun hout => hne ?_
    rw [covers_eq, dif_neg hout, Bool.xor_false]
  · rw [collides_iff_bitAt]
    refine exists_congr fun px => exists_congr fun py => and_congr_right fun hx =>
      and_congr_right fun hy => and_congr_right fun hl => ?_
    exact covers_iff_switched_off d x y sprite hx hy hl
  · intro limit hlimit hx hy
    exact Screen.drawRows_toList hlimit 0 sprite hx hy

/-- Three full rows that hang over the lower right corner of a blank screen, and then one pixel on
top of them. -/
theorem draw_clipped_xor_in_corner :
    ∃ d : Display, d = blank.draw 60 30 [0xFF, 0xFF, 0xFF]
      ∧ d.bitAt 63 31 = true
      ∧ d.bitAt 0 31 = false
      ∧ d.bitAt 0 0 = false
      ∧ d.collides 60 30 [0x80] = true
      ∧ (d.draw 60 30 [0x80]).bitAt 60 30 = false
      ∧ Screen.draw 2048 d.bytes.toList 60 30 [0x80]
        = .ok ((d.draw 60 30 [0x80]).bytes.toList, true) := by
  obtain ⟨d, hd⟩ : ∃ d : Display, d = blank.draw 60 30 [0xFF, 0xFF, 0xFF] := ⟨_, rfl⟩
  have hblank := blank.isBlank_iff.mp (blank.isBlank_iff_eq.mpr rfl)
  have hbit : ∀ px py, px < 64 → py < 32 →
      d.bitAt px py = covers 60 30 [0xFF, 0xFF, 0xFF] px py := by
    intro px py hx hy
    rw [hd, (draw_clipped_xor blank 60 30 _).1 px py hx hy, hblank px py hx hy, Bool.false_xor]
  have hlit : d.bitAt 60 30 = true := by rw [hbit 60 30 (by decide) (by decide)]; decide
  obtain ⟨hxor, -, -, hcollides, -, hloop⟩ := draw_clipped_xor d 60 30 [0x80]
  have hc : d.collides 60 30 [0x80] = true :=
    hcollides.mpr ⟨60, 30, by decide, by decide, hlit, by decide⟩
  refine ⟨d, hd, ?_, ?_, ?_, hc, ?_, ?_⟩
  · rw [hbit 63 31 (by decide) (by decide)]
    decide
  · rw [hbit 0 31 (by decide) (by decide)]
    decide
  · rw [hbit 0 0 (by decide) (by decide)]
    decide
  · rw [hxor 60 30 (by decide) (by decide), hlit]
    decide
  · rw [hloop 2048 (Nat.le_refl _) (by decide) (by decide), hc]

end ChipEight.Display
