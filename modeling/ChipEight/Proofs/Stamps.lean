import ChipEight.Proofs.Drawing

/-!
# Many sprites on one screen

A stamp is a sprite with a place to draw it at. Stamps may overlap in any way, hang
over the edges, and lie on whatever was on the screen before, and still the order in
which they are drawn does not matter. It is not that they keep out of each other's way:
a pixel under several of them is flipped several times. But that is all that happens to
it, and none of the stamps looks at the screen before it decides what to flip.

So what counts for a pixel is how many stamps lie over it, its `layers`, and of these
only whether they are odd in number (`bitAt_drawAll`). Two lists of stamps leave the
same behind exactly when they agree in that everywhere on the screen (`drawAll_eq_iff`).
Another order has the same layers, and a stamp that is taken out along with its twin
takes two of them or none.
-/

namespace ChipEight.Display

/-- A sprite with the place of its top left corner. -/
structure Stamp where
  column : Nat
  row : Nat
  sprite : List UInt8

/-- Whether a stamp has a lit pixel at `(px, py)`. -/
def Stamp.covers (st : Stamp) (px py : Nat) : Bool :=
  Display.covers st.column st.row st.sprite px py

/-- A stamp has a lit pixel on the screen. In each row the leftmost one is the highest bit. -/
def Stamp.Shows (st : Stamp) : Prop :=
  ∃ bits k j, st.sprite[k]? = some bits ∧ j < 8 ∧ bits.toNat.testBit (7 - j) = true
    ∧ st.column + j < 64 ∧ st.row + k < 32

/-- The display with a stamp drawn on it. -/
def stamp (d : Display) (st : Stamp) : Display := d.draw st.column st.row st.sprite

/-- Whether drawing a stamp switches a pixel off. -/
def hitBy (d : Display) (st : Stamp) : Bool := d.collides st.column st.row st.sprite

/-- The display with some stamps drawn on it, one after the other. -/
def drawAll (d : Display) (sts : List Stamp) : Display := sts.foldl stamp d

/-- How many of the stamps cover a pixel. -/
def layers (sts : List Stamp) (px py : Nat) : Nat := sts.countP (·.covers px py)

variable {d : Display} {st : Stamp} {sts sts' : List Stamp} {px py : Nat}

/-- A stamp shows where it covers a pixel of the screen. -/
theorem shows_iff : st.Shows ↔ ∃ px py, px < 64 ∧ py < 32 ∧ st.covers px py = true := by
  constructor
  · rintro ⟨bits, k, j, hk, hj, hb, hx, hy⟩
    refine ⟨st.column + j, st.row + k, hx, hy, ?_⟩
    rw [Stamp.covers, Display.covers, decide_eq_true ⟨by omega, by omega, by omega⟩,
      Nat.add_sub_cancel_left, Nat.add_sub_cancel_left, hk]
    exact hb
  · rintro ⟨px, py, hx, hy, hc⟩
    rw [Stamp.covers, Display.covers, Bool.and_eq_true, decide_eq_true_eq] at hc
    obtain ⟨⟨hr, hl, hw⟩, hb⟩ := hc
    cases hk : st.sprite[py - st.row]? with
    | none =>
      rw [hk, Option.getD_none, UInt8.toNat_zero, Nat.zero_testBit] at hb
      cases hb
    | some bits =>
      rw [hk] at hb
      exact ⟨bits, py - st.row, px - st.column, hk, by omega, hb, by omega, by omega⟩

/-! ## Layers -/

theorem layers_cons (st : Stamp) (sts : List Stamp) :
    layers (st :: sts) px py = layers sts px py + (st.covers px py).toNat := by
  rw [layers, layers, List.countP_cons]
  cases st.covers px py <;> rfl

theorem layers_append (sts sts' : List Stamp) :
    layers (sts ++ sts') px py = layers sts px py + layers sts' px py := List.countP_append

theorem layers_perm (h : sts.Perm sts') : layers sts px py = layers sts' px py :=
  h.countP_eq _

/-- To flip once more is to change between odd and even. -/
theorem xor_odd (b : Bool) (n : Nat) :
    (b ^^ decide (n % 2 = 1)) = decide ((n + b.toNat) % 2 = 1) := by
  cases b with
  | false => rw [Bool.false_xor, Bool.toNat_false, Nat.add_zero]
  | true =>
    rw [Bool.true_xor, Bool.toNat_true, ← decide_not, decide_eq_decide]
    omega

/-- **A pixel is flipped once for each stamp over it.** -/
theorem bitAt_drawAll (hx : px < 64) (hy : py < 32) (sts : List Stamp) :
    (d.drawAll sts).bitAt px py = (d.bitAt px py ^^ decide (layers sts px py % 2 = 1)) := by
  induction sts generalizing d with
  | nil => exact (Bool.xor_false _).symm
  | cons st sts ih =>
    calc ((d.stamp st).drawAll sts).bitAt px py
        = ((d.stamp st).bitAt px py ^^ decide (layers sts px py % 2 = 1)) := ih
      _ = ((d.bitAt px py ^^ st.covers px py) ^^ decide (layers sts px py % 2 = 1)) := by
          rw [stamp, bitAt_draw d st.column st.row st.sprite hx hy, Stamp.covers]
      _ = (d.bitAt px py ^^ decide (layers (st :: sts) px py % 2 = 1)) := by
          rw [Bool.xor_assoc, xor_odd, layers_cons]

/-- **Stamps leave the same behind where they have the same layers, but for an even number.**

What was on the screen before has no part in it. -/
theorem drawAll_eq_iff :
    d.drawAll sts = d.drawAll sts' ↔
      ∀ px py, px < 64 → py < 32 → layers sts px py % 2 = layers sts' px py % 2 := by
  rw [eq_iff_bitAt]
  refine forall_congr' fun px => forall_congr' fun py => forall_congr' fun hx =>
    forall_congr' fun hy => ?_
  rw [bitAt_drawAll hx hy, bitAt_drawAll hx hy, Bool.xor_right_inj, decide_eq_decide]
  omega

theorem drawAll_append (d : Display) (sts sts' : List Stamp) :
    d.drawAll (sts ++ sts') = (d.drawAll sts).drawAll sts' := List.foldl_append

theorem drawAll_perm (d : Display) (h : sts.Perm sts') : d.drawAll sts = d.drawAll sts' :=
  drawAll_eq_iff.mpr fun px py _ _ => by rw [layers_perm h]

/-- The same stamps in any order undo what they have done. -/
theorem drawAll_drawAll (d : Display) (h : sts.Perm sts') : (d.drawAll sts).drawAll sts' = d := by
  have he : d.drawAll (sts ++ sts') = d.drawAll [] := by
    refine drawAll_eq_iff.mpr fun px py _ _ => ?_
    have h0 : layers [] px py = 0 := rfl
    rw [layers_append, layers_perm h, h0]
    omega
  rw [← drawAll_append, he]
  rfl

theorem drawAll_remove_twins (d : Display) (st : Stamp) (before between after : List Stamp) :
    d.drawAll (before ++ st :: between ++ st :: after)
      = d.drawAll (before ++ between ++ after) := by
  refine drawAll_eq_iff.mpr fun px py _ _ => ?_
  simp only [layers_append, layers_cons]
  omega

/-- A stamp that is drawn twice hits the first time what is lit under it, and the second time
the rest. -/
theorem hitBy_or_hitBy_stamp (d : Display) (st : Stamp) :
    (d.hitBy st = true ∨ (d.stamp st).hitBy st = true) ↔ st.Shows := by
  rw [hitBy, hitBy, collides_iff_bitAt, collides_iff_bitAt, shows_iff]
  constructor
  · rintro (⟨px, py, hx, hy, -, hc⟩ | ⟨px, py, hx, hy, -, hc⟩)
    · exact ⟨px, py, hx, hy, hc⟩
    · exact ⟨px, py, hx, hy, hc⟩
  · rintro ⟨px, py, hx, hy, hc⟩
    cases hl : d.bitAt px py with
    | true => exact .inl ⟨px, py, hx, hy, hl, hc⟩
    | false =>
      refine .inr ⟨px, py, hx, hy, ?_, hc⟩
      rw [stamp, bitAt_draw d st.column st.row st.sprite hx hy, hl, Bool.false_xor]
      exact hc

/--
**Stamps can be drawn in any order, and a pair of the same can be left out.**

Each pixel is flipped as many times as there are stamps over it. So an order is as good as
any other, two of the same stamp do nothing wherever they stand in a list, and all that some
stamps have left behind goes away when they are drawn once more. Of a single stamp that is drawn
twice it is known besides what is reported: it hits at least once if it has a lit pixel on the
screen, and otherwise never.
-/
theorem stamps_commute_and_cancel (d : Display) :
    (∀ (sts : List Stamp) (px py : Nat), px < 64 → py < 32 →
        (d.drawAll sts).bitAt px py = (d.bitAt px py ^^ decide (layers sts px py % 2 = 1)))
      ∧ (∀ sts sts' : List Stamp, sts.Perm sts' → d.drawAll sts = d.drawAll sts')
      ∧ (∀ (st : Stamp) (before between after : List Stamp),
          d.drawAll (before ++ st :: between ++ st :: after)
            = d.drawAll (before ++ between ++ after))
      ∧ (∀ sts sts' : List Stamp, sts.Perm sts' → (d.drawAll sts).drawAll sts' = d)
      ∧ ∀ st : Stamp, (d.stamp st).stamp st = d
        ∧ (st.Shows → d.hitBy st = true ∨ (d.stamp st).hitBy st = true)
        ∧ (¬ st.Shows → d.hitBy st = false ∧ (d.stamp st).hitBy st = false) := by
  refine ⟨fun sts px py hx hy => bitAt_drawAll hx hy sts, fun sts sts' h => drawAll_perm d h,
    drawAll_remove_twins d, fun sts sts' h => drawAll_drawAll d h, fun st => ?_⟩
  have hit := hitBy_or_hitBy_stamp d st
  refine ⟨draw_draw d st.column st.row st.sprite, hit.mpr, fun hn => ?_⟩
  rw [← hit, not_or, Bool.not_eq_true, Bool.not_eq_true] at hn
  exact hn

/-- Three full rows that hang over the lower right corner, two pixels on top of them, and a row
that is beyond the right edge. -/
theorem stamps_commute_and_cancel_in_corner :
    ∃ full two beyond : Stamp, full = ⟨60, 30, [0xFF, 0xFF, 0xFF]⟩ ∧ two = ⟨62, 31, [0xC0]⟩
      ∧ beyond = ⟨200, 3, [0xFF]⟩
      ∧ (blank.drawAll [full, two]).bitAt 60 30 = true
      ∧ (blank.drawAll [full, two]).bitAt 62 31 = false
      ∧ blank.drawAll [full, two] = blank.drawAll [two, full]
      ∧ blank.drawAll [full, two, full] = blank.stamp two
      ∧ (blank.hitBy two = true ∨ (blank.stamp two).hitBy two = true)
      ∧ blank.hitBy beyond = false := by
  obtain ⟨full, hfull⟩ : ∃ st : Stamp, st = ⟨60, 30, [0xFF, 0xFF, 0xFF]⟩ := ⟨_, rfl⟩
  obtain ⟨two, htwo⟩ : ∃ st : Stamp, st = ⟨62, 31, [0xC0]⟩ := ⟨_, rfl⟩
  obtain ⟨hxor, hperm, htwins, -, hhit⟩ := stamps_commute_and_cancel blank
  have hblank := blank.isBlank_iff.mp (blank.isBlank_iff_eq.mpr rfl)
  have hshows : two.Shows := by
    rw [htwo]
    exact ⟨0xC0, 0, 0, rfl, by decide, by decide, by decide, by decide⟩
  have hbeyond : ¬ (⟨200, 3, [0xFF]⟩ : Stamp).Shows := by
    rintro ⟨_, _, j, -, -, -, hx, -⟩
    exact absurd (Nat.le_trans (Nat.le_add_right 200 j) (Nat.le_of_lt hx)) (by decide)
  refine ⟨full, two, _, hfull, htwo, rfl, ?_, ?_, hperm _ _ (List.Perm.swap _ _ _),
    htwins full [] [two] [], (hhit two).2.1 hshows, ((hhit _).2.2 hbeyond).1⟩
  · rw [hxor _ 60 30 (by decide) (by decide), hblank 60 30 (by decide) (by decide), hfull, htwo]
    decide
  · rw [hxor _ 62 31 (by decide) (by decide), hblank 62 31 (by decide) (by decide), hfull, htwo]
    decide

end ChipEight.Display
