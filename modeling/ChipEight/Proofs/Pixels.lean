import ChipEight.Display.Sprite

/-!
# The screen, pixel by pixel

`isLit_draw` says what drawing does to a pixel. Here it is shown that the pixels are
all there is to a display (`ext_isLit`), and that a collision is what it should be: a
pixel on the screen that is lit, and that the sprite covers (`collides_iff`).

A display draws a row at once, with two exclusive ors. One that looks at every pixel
of the row and flips it if need be, `toggles`, comes to the same (`toggles_bits`),
and so does one that looks for collisions on the way (`hits_bits`).
-/

namespace ChipEight.Display

variable {d d' : Display} {x y px py : Nat}

theorem isLit_lt (h : d.isLit px py = true) : px < 64 ∧ py < 32 := by
  refine Decidable.byContradiction fun hn => ?_
  rw [isLit_eq_false d hn] at h
  cases h

theorem byte_ext {a b : UInt8} (h : ∀ k < 8, a.toNat.testBit k = b.toNat.testBit k) : a = b := by
  refine UInt8.toNat_inj.mp (Nat.eq_of_testBit_eq fun k => ?_)
  rcases Nat.lt_or_ge k 8 with hk | hk
  · exact h k hk
  · rw [testBit_eq_false a hk, testBit_eq_false b hk]

/-- **A display is known by its pixels.** -/
theorem ext_isLit (h : ∀ x y, x < 64 → y < 32 → d.isLit x y = d'.isLit x y) : d = d' := by
  suffices d.bytes = d'.bytes by
    cases d; cases d'; exact congrArg mk this
  refine Vector.ext fun i hi => byte_ext fun k hk => ?_
  -- bit `k` of byte `i` is the pixel in column `x` of row `i / 8`
  have hx : i % 8 * 8 + (7 - k) < 64 := by omega
  have hy : i / 8 < 32 := by omega
  have hp := h _ _ hx hy
  rw [isLit_of_lt _ hx hy, isLit_of_lt _ hx hy] at hp
  have h1 : 8 * (i / 8) + (i % 8 * 8 + (7 - k)) / 8 = i := by omega
  have h2 : 7 - (i % 8 * 8 + (7 - k)) % 8 = k := by omega
  simpa only [h1, h2] using hp

theorem le_of_covers {sprite : List UInt8} (h : covers x y sprite px py = true) : y ≤ py := by
  rw [covers, Bool.and_eq_true, decide_eq_true_eq] at h
  exact h.1.1

/-! ## Rows off the screen -/

theorem drawRow_of_le (hy : 32 ≤ y) (row : UInt8) : d.drawRow x y row = d := by
  have flip_eq : ∀ c mask, d.flip c y mask = d := fun c mask => dif_neg (by omega)
  rw [drawRow, flip_eq, flip_eq]

theorem draw_of_le (hy : 32 ≤ y) (sprite : List UInt8) : d.draw x y sprite = d := by
  induction sprite generalizing y with
  | nil => rfl
  | cons row sprite ih => rw [draw, drawRow_of_le hy, ih (by omega)]

/-! ## Collisions -/

theorem and_ne_zero_iff {a b : UInt8} :
    (a &&& b != 0) = true ↔ ∃ k < 8, a.toNat.testBit k = true ∧ b.toNat.testBit k = true := by
  rw [bne_iff_ne, Ne, Decidable.not_iff_comm, iff_comm]
  constructor
  · intro h
    refine fun ⟨k, _, ha, hb⟩ => ?_
    have := congrArg (fun c : UInt8 => c.toNat.testBit k) h
    simp [ha, hb] at this
  · intro h
    refine byte_ext fun k hk => ?_
    rw [UInt8.toNat_and, Nat.testBit_and, UInt8.toNat_zero, Nat.zero_testBit, Bool.and_eq_false_iff]
    cases ha : a.toNat.testBit k with
    | false => exact .inl rfl
    | true => exact .inr (Bool.eq_false_iff.mpr fun hb => h ⟨k, hk, ha, hb⟩)

/-- A mask meets a lit pixel under one of its bits. -/
theorem meets_iff {c : Nat} {mask : UInt8} :
    d.meets c y mask = true ↔
      ∃ px, px / 8 = c ∧ mask.toNat.testBit (7 - px % 8) = true ∧ d.isLit px y = true := by
  rw [meets]
  split
  · rename_i h
    rw [and_ne_zero_iff]
    constructor
    · rintro ⟨k, hk, hb, hm⟩
      have h1 : (8 * c + (7 - k)) / 8 = c := by omega
      have h2 : 7 - (8 * c + (7 - k)) % 8 = k := by omega
      refine ⟨8 * c + (7 - k), h1, by rw [h2]; exact hm, ?_⟩
      rw [isLit_of_lt d (by omega) h.2]
      simpa only [h1, h2] using hb
    · rintro ⟨px, rfl, hm, hl⟩
      rw [isLit_of_lt d (by omega) h.2] at hl
      exact ⟨7 - px % 8, by omega, hl, hm⟩
  · rename_i h
    refine iff_of_false nofun fun ⟨px, hc, _, hl⟩ => h ?_
    have := isLit_lt hl
    omega

/-- A row of a sprite meets a lit pixel under one of its own. -/
theorem meets_row_iff {row : UInt8} :
    (d.meets (x / 8) y (leftPart x row) || d.meets (x / 8 + 1) y (rightPart x row)) = true ↔
      ∃ px, x ≤ px ∧ px < x + 8 ∧ row.toNat.testBit (7 - (px - x)) = true
        ∧ d.isLit px y = true := by
  rw [Bool.or_eq_true, meets_iff, meets_iff]
  constructor
  · rintro (⟨px, hc, hm, hl⟩ | ⟨px, hc, hm, hl⟩)
    · rw [testBit_leftPart _ _ _ (by omega)] at hm
      have hx : x ≤ px := by
        refine Decidable.byContradiction fun hn => ?_
        rw [testBit_eq_false _ (by omega)] at hm
        cases hm
      have : x % 8 + (7 - px % 8) = 7 - (px - x) := by omega
      exact ⟨px, hx, by omega, this ▸ hm, hl⟩
    · rw [testBit_rightPart _ _ _ (by omega), Bool.and_eq_true, decide_eq_true_eq] at hm
      obtain ⟨hx, hm⟩ := hm
      have : 7 - px % 8 - (8 - x % 8) = 7 - (px - x) := by omega
      exact ⟨px, by omega, by omega, this ▸ hm, hl⟩
  · rintro ⟨px, hx, hx', hm, hl⟩
    -- the pixel is under the left part or under the right one
    rcases (by omega : px / 8 = x / 8 ∨ px / 8 = x / 8 + 1) with hc | hc
    · refine .inl ⟨px, hc, ?_, hl⟩
      rw [testBit_leftPart _ _ _ (by omega)]
      have : x % 8 + (7 - px % 8) = 7 - (px - x) := by omega
      rw [this]; exact hm
    · refine .inr ⟨px, hc, ?_, hl⟩
      have h1 : 8 - x % 8 ≤ 7 - px % 8 := by omega
      have h2 : 7 - px % 8 - (8 - x % 8) = 7 - (px - x) := by omega
      rw [testBit_rightPart _ _ _ (by omega), decide_eq_true h1, h2, hm]
      rfl

/-- **A sprite collides where it covers a pixel that is lit.** -/
theorem collides_iff {sprite : List UInt8} :
    d.collides x y sprite = true ↔
      ∃ px py, d.isLit px py = true ∧ covers x y sprite px py = true := by
  induction sprite generalizing y with
  | nil => simp [collides, covers_nil]
  | cons row sprite ih =>
    rw [collides, Bool.or_eq_true, meets_row_iff, ih]
    constructor
    · rintro (⟨px, hx, hx', hm, hl⟩ | ⟨px, py, hl, hc⟩)
      · refine ⟨px, y, hl, ?_⟩
        simp [covers, hx, hx', hm]
      · have : py ≠ y := Nat.ne_of_gt (le_of_covers hc)
        refine ⟨px, py, hl, ?_⟩
        rw [covers_cons, hc]
        simp [this]
    · rintro ⟨px, py, hl, hc⟩
      rw [covers_cons] at hc
      by_cases hy : py = y
      · subst hy
        have : covers x (py + 1) sprite px py = false :=
          Bool.eq_false_iff.mpr fun h => Nat.not_succ_le_self _ (le_of_covers h)
        rw [this, Bool.xor_false, Bool.and_eq_true, decide_eq_true_eq] at hc
        exact .inl ⟨px, hc.1.2.1, hc.1.2.2, hc.2, hl⟩
      · simp only [hy, false_and, decide_false, Bool.false_and, Bool.false_xor] at hc
        exact .inr ⟨px, py, hl, hc⟩

theorem collides_of_le (hy : 32 ≤ y) (sprite : List UInt8) : d.collides x y sprite = false := by
  refine Bool.eq_false_iff.mpr fun h => ?_
  obtain ⟨px, py, hl, hc⟩ := collides_iff.mp h
  exact Nat.not_le.mpr (isLit_lt hl).2 (Nat.le_trans hy (le_of_covers hc))

/-- A row that is drawn above a sprite is not in its way. -/
theorem collides_drawRow {z : Nat} (hz : y < z) (row : UInt8) (sprite : List UInt8) :
    (d.drawRow x y row).collides x z sprite = d.collides x z sprite := by
  have same : ∀ px py, covers x z sprite px py = true →
      (d.drawRow x y row).isLit px py = d.isLit px py := by
    intro px py hc
    by_cases h : px < 64 ∧ py < 32
    · have : py ≠ y := Nat.ne_of_gt (Nat.lt_of_lt_of_le hz (le_of_covers hc))
      rw [isLit_drawRow d x y row h.1 h.2]
      simp [this]
    · rw [isLit_eq_false _ h, isLit_eq_false _ h]
  rw [Bool.eq_iff_iff, collides_iff, collides_iff]
  constructor
  · rintro ⟨px, py, hl, hc⟩
    exact ⟨px, py, (same px py hc).symm.trans hl, hc⟩
  · rintro ⟨px, py, hl, hc⟩
    exact ⟨px, py, (same px py hc).trans hl, hc⟩

/-! ## One pixel at a time -/

/-- The byte in which a single bit is set. -/
def mask (k : Nat) : UInt8 := UInt8.ofNat (1 <<< k)

def toggle (d : Display) (x y : Nat) : Display := d.flip (x / 8) y (mask (7 - x % 8))

/-- Flip the pixels of row `y` from column `x` on, where `row` says so. -/
def toggles (y : Nat) : (x : Nat) → List Bool → Display → Display
  | _, [], d => d
  | x, lit :: row, d => toggles y (x + 1) row (if lit then d.toggle x y else d)

/-- Whether that switches a pixel off. -/
def hits (d : Display) (y : Nat) : (x : Nat) → List Bool → Bool
  | _, [] => false
  | x, lit :: row => lit && d.isLit x y || d.hits y (x + 1) row

theorem testBit_mask {j k : Nat} (hk : k < 8) : (mask j).toNat.testBit k = decide (j = k) := by
  rw [mask, UInt8.toNat_ofNat', Nat.testBit_mod_two_pow, Nat.one_shiftLeft, Nat.testBit_two_pow]
  simp [hk]

theorem isLit_toggle (hx : px < 64) (hy : py < 32) :
    (d.toggle x y).isLit px py = (d.isLit px py ^^ decide (px = x ∧ py = y)) := by
  rw [toggle, isLit_flip d _ _ _ hx hy, testBit_mask (by omega), ← Bool.decide_and]
  congr 2
  rw [eq_iff_iff]
  omega

theorem toggle_of_le (hx : 64 ≤ x) : d.toggle x y = d := dif_neg (by omega)

theorem toggles_of_le (hx : 64 ≤ x) (row : List Bool) : toggles y x row d = d := by
  induction row generalizing x with
  | nil => rfl
  | cons lit row ih => rw [toggles, toggle_of_le hx, ite_self, ih (by omega)]

theorem hits_of_le (hx : 64 ≤ x) (row : List Bool) : d.hits y x row = false := by
  induction row generalizing x with
  | nil => rfl
  | cons lit row ih => rw [hits, isLit_eq_false d (by omega), Bool.and_false, ih (by omega)]; rfl

/-- The bit over column `px` of a row of bits that starts in column `x`. -/
theorem getD_cons_of_le {lit : Bool} {row : List Bool} (h : x ≤ px) :
    (lit :: row)[px - x]?.getD false
      = if px = x then lit else row[px - (x + 1)]?.getD false := by
  split
  · rename_i e
    rw [e, Nat.sub_self]; rfl
  · have : px - x = px - (x + 1) + 1 := by omega
    rw [this]; rfl

theorem isLit_toggles (hx : px < 64) (hy : py < 32) (row : List Bool) :
    (toggles y x row d).isLit px py =
      (d.isLit px py ^^ (decide (py = y ∧ x ≤ px) && row[px - x]?.getD false)) := by
  induction row generalizing x d with
  | nil => simp [toggles]
  | cons lit row ih =>
    have hd : (if lit then d.toggle x y else d).isLit px py
        = (d.isLit px py ^^ (lit && decide (px = x ∧ py = y))) := by
      cases lit with
      | false => simp
      | true => rw [if_pos rfl, isLit_toggle hx hy, Bool.true_and]
    rw [toggles, ih, hd, Bool.xor_assoc]
    congr 1
    rcases Nat.lt_trichotomy px x with h | rfl | h
    · have h1 : ¬ x ≤ px := by omega
      have h2 : ¬ x + 1 ≤ px := by omega
      have h3 : px ≠ x := by omega
      simp [h1, h2, h3]
    · have h1 : ¬ px + 1 ≤ px := by omega
      simp [h1, Bool.and_comm]
    · have h1 : x + 1 ≤ px := h
      have h2 : x ≤ px := by omega
      have h3 : px ≠ x := by omega
      rw [getD_cons_of_le h2, if_neg h3]
      simp [h1, h2, h3]

theorem hits_iff {row : List Bool} :
    d.hits y x row = true ↔
      ∃ px, x ≤ px ∧ row[px - x]?.getD false = true ∧ d.isLit px y = true := by
  induction row generalizing x with
  | nil => simp [hits]
  | cons lit row ih =>
    rw [hits, Bool.or_eq_true, Bool.and_eq_true, ih]
    constructor
    · rintro (⟨hb, hl⟩ | ⟨px, hx, hb, hl⟩)
      · exact ⟨x, Nat.le_refl x, by rw [getD_cons_of_le (Nat.le_refl x), if_pos rfl, hb], hl⟩
      · exact ⟨px, by omega, by rw [getD_cons_of_le (by omega), if_neg (by omega), hb], hl⟩
    · rintro ⟨px, hx, hb, hl⟩
      rw [getD_cons_of_le hx] at hb
      split at hb
      · rename_i e
        exact .inl ⟨hb, e ▸ hl⟩
      · exact .inr ⟨px, by omega, hb, hl⟩

/-- A pixel that is flipped is not in the way of those behind it. -/
theorem hits_toggle {z : Nat} (hz : x < z) (row : List Bool) :
    (d.toggle x y).hits y z row = d.hits y z row := by
  have same : ∀ px, z ≤ px → (d.toggle x y).isLit px y = d.isLit px y := by
    intro px hp
    by_cases h : px < 64 ∧ y < 32
    · have : px ≠ x := by omega
      rw [isLit_toggle h.1 h.2]
      simp [this]
    · rw [isLit_eq_false _ h, isLit_eq_false _ h]
  rw [Bool.eq_iff_iff, hits_iff, hits_iff]
  constructor
  · rintro ⟨px, hp, hb, hl⟩
    exact ⟨px, hp, hb, (same px hp).symm.trans hl⟩
  · rintro ⟨px, hp, hb, hl⟩
    exact ⟨px, hp, hb, (same px hp).trans hl⟩

theorem getD_bits (b : UInt8) (k : Nat) :
    (bits b)[k]?.getD false = (decide (k < 8) && b.toNat.testBit (7 - k)) := by
  rw [bits, List.getElem?_map]
  by_cases h : k < 8
  · rw [List.getElem?_range h]
    simp [h]
  · rw [List.getElem?_eq_none (by rw [List.length_range]; omega)]
    simp [h]

/-- **A row drawn pixel by pixel is the row drawn at once.** -/
theorem toggles_bits (row : UInt8) : toggles y x (bits row) d = d.drawRow x y row := by
  refine ext_isLit fun px py hx hy => ?_
  rw [isLit_toggles hx hy, isLit_drawRow d x y row hx hy, getD_bits, ← Bool.and_assoc,
    ← Bool.decide_and]
  congr 3
  rw [eq_iff_iff]
  omega

theorem hits_bits (row : UInt8) :
    d.hits y x (bits row)
      = (d.meets (x / 8) y (leftPart x row) || d.meets (x / 8 + 1) y (rightPart x row)) := by
  rw [Bool.eq_iff_iff, hits_iff, meets_row_iff]
  refine exists_congr fun px => ?_
  rw [getD_bits, Bool.and_eq_true, decide_eq_true_eq]
  constructor
  · rintro ⟨hx, ⟨hk, hb⟩, hl⟩
    exact ⟨hx, by omega, hb, hl⟩
  · rintro ⟨hx, hk, hb, hl⟩
    exact ⟨hx, ⟨by omega, hb⟩, hl⟩

end ChipEight.Display
