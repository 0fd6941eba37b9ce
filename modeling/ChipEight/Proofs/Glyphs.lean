import ChipEight.Proofs.SavedRegisters
import ChipEight.Proofs.SpriteSource

/-!
# Showing a digit

Two instructions show a digit. One points the index register at a glyph of the font, the other
draws five rows from there. Nobody checks that what is drawn is a glyph: it is
whatever memory holds at the address by then, and a program can write there.

`Memory.HoldsFont` is what has to last, and it does as long as nothing is written below the end of
the font (`History.holdsFont`). Then the five rows are those of the glyph, wherever
the machine is, and they are in memory at every size of it, so that the second instruction is never
refused. `Font.lights` says which pixels those rows are, with the table of the font
and nothing else.
-/

namespace ChipEight

variable {size : Nat} {σ : Type} [Host σ]

/-- The font is where it was loaded. -/
def Memory.HoldsFont (mem : Memory size) : Prop :=
  ∀ a : Fin 80, mem.byte a.val = Font.table[a]

/-! ## The rows of a glyph -/

namespace Font

/-- Whether the five rows that begin with row `5 * d` of the font have a bit set at `(px, py)`, when
their top left corner is at `(x, y)`. -/
def lights (d : Fin 16) (x y px py : Nat) : Bool :=
  decide (y ≤ py ∧ py < y + 5 ∧ x ≤ px ∧ px < x + 8) &&
    (table.toList.getD (5 * d.val + (py - y)) 0).toNat.testBit (7 - (px - x))

theorem length_glyph (d : Fin 16) : (glyph d).length = 5 := by
  have hlen : table.toList.length = 80 := Vector.length_toList
  have hd := d.isLt
  rw [glyph, glyphHeight, List.length_take, List.length_drop, hlen]
  omega

theorem getElem?_glyph (d : Fin 16) {k : Nat} (hk : k < 5) :
    (glyph d)[k]? = table.toList[5 * d.val + k]? := by
  rw [glyph, glyphHeight, List.getElem?_take_of_lt hk, List.getElem?_drop]

/-- As a sprite, a glyph covers the pixels that it lights. -/
theorem covers_glyph (d : Fin 16) (x y px py : Nat) :
    Display.covers x y (glyph d) px py = lights d x y px py := by
  rw [Display.covers_eq, lights]
  split
  · rename_i h
    rw [length_glyph] at h
    have hrow : py - y < (glyph d).length := by rw [length_glyph]; omega
    have hget := List.getElem?_eq_getElem hrow
    rw [getElem?_glyph d (by omega)] at hget
    rw [List.getD_eq_getElem?_getD, hget, Option.getD_some, decide_eq_true h, Bool.true_and]
  · rename_i h
    rw [length_glyph] at h
    rw [decide_eq_false h, Bool.false_and]

end Font

/-! ## A font that is left alone -/

namespace Memory

/-- Where the font is, its glyphs are read. -/
theorem HoldsFont.read_glyph {mem : Memory size} (h : mem.HoldsFont) (d : Fin 16) :
    mem.read (5 * d.val) 5 = Font.glyph d := by
  refine List.ext_getElem? fun k => ?_
  rcases Nat.lt_or_ge k 5 with hk | hk
  · have ha : 5 * d.val + k < 80 := by omega
    rw [Font.getElem?_glyph d hk, read, List.getElem?_map, List.getElem?_range' hk, Nat.one_mul,
      Option.map_some, h ⟨_, ha⟩, Vector.getElem?_toList, Vector.getElem?_eq_getElem ha]
    rfl
  · rw [List.getElem?_eq_none (by rwa [length_read]),
      List.getElem?_eq_none (by rwa [Font.length_glyph])]

theorem holdsFont_initial (hsize : 865 ≤ size) (program : Array UInt8) :
    (initial size program).HoldsFont := by
  have hd := Layout.displayStart_eq size
  intro a
  exact byte_initial_font a.isLt (by omega)

end Memory

/-- No move changes the font but one that writes there. -/
theorem Moment.holdsFont_after (hsize : 865 ≤ size) {z : Moment size σ}
    (hw : ∀ a < 80, ¬ z.Writes a) (h : z.before.machine.memory.HoldsFont) :
    z.after.machine.memory.HoldsFont := by
  have hd := Layout.displayStart_eq size
  intro a
  have ha : a.val ∉ Layout.display size := by
    intro hm
    have hle := (Layout.Region.mem_iff.mp hm).1
    dsimp only [Layout.display] at hle
    omega
  rw [Moment.byte_after ha (hw a.val a.isLt)]
  exact h a

theorem History.holdsFont (hsize : 865 ≤ size) {s t : Session size σ} {xs : List (Moment size σ)}
    (h : History s xs t) (hw : ∀ z ∈ xs, ∀ a < 80, ¬ z.Writes a)
    (hs : s.machine.memory.HoldsFont) : t.machine.memory.HoldsFont := by
  induction h with
  | nil => exact hs
  | cons mv _ ih =>
    obtain ⟨hz, hzs⟩ := List.forall_mem_cons.mp hw
    exact ih hzs (Moment.holdsFont_after hsize hz hs)

/-! ## The two instructions -/

namespace Session

variable {t u : Session size σ}

/-- Nothing stands in the way of pointing at a glyph. -/
theorem apply_pointGlyph (t : Session size σ) (x : Register) :
    t.apply (.pointGlyph x) = .ok ⟨(t.machine.perform t.host (.pointGlyph x)).1, t.host⟩ :=
  apply_of_none rfl

/-- A glyph that is pointed at is drawn. -/
theorem apply_draw_glyph (hsize : 865 ≤ size) (hf : u.machine.memory.HoldsFont) {d : Fin 16}
    (hi : u.machine.index.toNat = 5 * d.val) (p q : Register) :
    ∃ w, u.apply (.draw p q 5) = .ok w
      ∧ w.machine = (u.machine.perform u.host (.draw p q 5)).1
      ∧ w.machine.display
        = u.machine.display.draw (u.machine.v p).toNat (u.machine.v q).toNat (Font.glyph d) := by
  have hend : u.machine.index.toNat + (5 : Nibble).val ≤ size := by
    have h5 : (5 : Nibble).val = 5 := rfl
    omega
  refine ⟨_, apply_of_none (u.machine.obstacle?_eq_none_of_span? rfl hend), rfl, ?_⟩
  rw [← hf.read_glyph d, ← hi]
  rfl

end Session

/--
**A digit is shown as the font has it, whatever the machine has gone through.**

The machine may be in any state it can get to, also while it waits for a key or after a step has
failed, as long as no instruction has written below the end of the font. The index register is
pointed at five times the low nibble of VX. Drawing from there is not refused, and every pixel of
the screen is flipped that the glyph lights from (VP, VQ) on; the others are as they were, and so is
all of memory outside of the display. Where the two instructions are in memory one behind the
other, two steps do this.
-/
theorem glyph_shown_from_any_state (hsize : 865 ≤ size) {program : Array UInt8}
    {s : Session size σ} (hm : Machine.load size program = .ok s.machine)
    (rs : List (Request σ)) (hw : ∀ z ∈ s.trail rs, ∀ a < 80, ¬ z.Writes a)
    {t : Session size σ} (ht : t = s.requests rs) (x p q : Register) {d : Fin 16}
    (hd : d.val = (t.machine.v x).toNat % 16) :
    ∃ u w, t.apply (.pointGlyph x) = .ok u ∧ u.apply (.draw p q 5) = .ok w
      ∧ u.machine.index.toNat = 5 * d.val
      ∧ (∀ px py, px < 64 → py < 32 → w.machine.display.bitAt px py
          = (t.machine.display.bitAt px py
            ^^ Font.lights d (t.machine.v p).toNat (t.machine.v q).toNat px py))
      ∧ (∀ a, a ∉ Layout.display size → w.machine.memory.byte a = t.machine.memory.byte a)
      ∧ (t.machine.awaiting = none → t.machine.Finds (.pointGlyph x) →
          u.machine.Finds (.draw p q 5) → s.requests (rs ++ [.move .step, .move .step]) = w) := by
  have hfont : t.machine.memory.HoldsFont := by
    rw [ht]
    refine (history_trail s rs).holdsFont hsize hw ?_
    rw [(Machine.load_eq_ok_iff.mp hm).2]
    exact Memory.holdsFont_initial hsize program
  obtain ⟨u, hu⟩ : ∃ u, t.apply (.pointGlyph x) = .ok u := ⟨_, t.apply_pointGlyph x⟩
  have hum : u.machine = (t.machine.perform t.host (.pointGlyph x)).1 := by
    rw [t.apply_pointGlyph x] at hu
    rw [← Except.ok.inj hu]
  -- pointing at the glyph leaves memory and registers as they were
  have hmem : u.machine.memory = t.machine.memory := by rw [hum]; rfl
  have hv : ∀ r, u.machine.v r = t.machine.v r := by intro r; rw [hum]; rfl
  have hindex : u.machine.index.toNat = 5 * d.val := by
    rw [hum, Machine.index_perform]
    exact (Font.toNat_glyphAddress _).trans (by rw [hd])
  obtain ⟨w, happly, hwm, hdisplay⟩ :=
    Session.apply_draw_glyph hsize (hmem.symm ▸ hfont) hindex p q
  refine ⟨u, w, hu, happly, hindex, fun px py hx hy => ?_, fun a ha => ?_, fun hk hi hj => ?_⟩
  · rw [hdisplay, Display.bitAt_draw _ _ _ _ hx hy, Font.covers_glyph, hv, hv, Machine.display,
      hmem]
    rfl
  · have hn : ¬ u.machine.Writes (.draw p q 5) a := fun h => h
    rw [hwm, Machine.byte_perform _ _ ha hn, hmem]
  · have hwait : u.machine.awaiting = none := by
      rw [hum, Machine.awaiting_perform]
      exact hk
    have h1 := Session.after_step_of_apply hk hi hu
    have h2 := Session.after_step_of_apply hwait hj happly
    rw [Session.requests_append, ← ht]
    show (t.after .step).after .step = w
    rw [h1, h2]

/-- An A is shown in the lower right corner, where two columns and two rows of it fit. The register
holds 1A, of which only the A counts. -/
theorem glyph_shown_from_any_state_in_corner :
    ∃ s w : Session 4096 Headless,
      Machine.load 4096 #[0x60, 0x1A, 0x61, 0x3E, 0x62, 0x1E, 0xF0, 0x29, 0xD1, 0x25] = .ok s.machine
        ∧ w = s.requests [.move .step, .move .step, .move .step, .move .step, .move .step]
        ∧ w.machine.display.bitAt 63 30 = true
        ∧ w.machine.display.bitAt 62 31 = true
        ∧ w.machine.display.bitAt 63 31 = false
        ∧ w.machine.display.bitAt 0 30 = false
        ∧ w.machine.display.bitAt 62 0 = false := by
  have hd : Layout.displayStart 4096 = 3840 := Layout.displayStart_eq _
  obtain ⟨s, hm, h0⟩ := Session.exists_atWord 4096
    #[0x60, 0x1A, 0x61, 0x3E, 0x62, 0x1E, 0xF0, 0x29, 0xD1, 0x25] Headless.mk (by decide)
  have hs := (Machine.load_eq_ok_iff.mp hm).2
  obtain ⟨e0, a0, h1⟩ :=
    Session.step_of_isStraight (i := .set 0 0x1A) h0 (by omega) (by decide) rfl rfl
  obtain ⟨e1, a1, h2⟩ :=
    Session.step_of_isStraight (i := .set 1 0x3E) h1 (by omega) (by decide) rfl rfl
  obtain ⟨e2, a2, h3⟩ :=
    Session.step_of_isStraight (i := .set 2 0x1E) h2 (by omega) (by decide) rfl rfl
  -- none of the three steps writes to memory
  have hw : ∀ z ∈ s.trail [.move .step, .move .step, .move .step], ∀ a < 80, ¬ z.Writes a := by
    have hset : ∀ {r : Session 4096 Headless} {word x n},
        r.step.event = .executed word (.set x n) → ∀ a < 80, ¬ (Moment.mk r .step).Writes a := by
      rintro r word x n he a - ⟨i, hi, hwrite⟩
      rw [Moment.executed?, he] at hi
      cases hi
      exact hwrite
    intro z hz
    simp only [Session.trail, Session.moments, List.mem_append, List.mem_singleton] at hz
    rcases hz with rfl | rfl | rfl | hz
    · exact hset e0
    · exact hset e1
    · exact hset e2
    · cases hz
  obtain ⟨t, ht⟩ : ∃ t, t = s.requests [.move .step, .move .step, .move .step] := ⟨_, rfl⟩
  have hstep : t = ((s.after .step).after .step).after .step := ht
  rw [← hstep] at a2 h3
  have hv0 : t.machine.v 0 = 0x1A := by
    rw [a2, Machine.v_perform, a1, Machine.v_perform, a0]
    exact Vector.getElem_set_self _
  have hv1 : t.machine.v 1 = 62 := by
    rw [a2, Machine.v_perform, a1]
    exact Vector.getElem_set_self _
  have hv2 : t.machine.v 2 = 30 := by
    rw [a2]
    exact Vector.getElem_set_self _
  have hblank : ∀ px py, px < 64 → py < 32 → t.machine.display.bitAt px py = false := by
    have hdisplay : t.machine.display = .blank := by
      rw [a2, a1, a0, hs]
      rfl
    rw [hdisplay]
    exact Display.blank.isBlank_iff.mp (Display.blank.isBlank_iff_eq.mpr rfl)
  obtain ⟨u, w, hu, -, -, hbits, -, hsteps⟩ :=
    glyph_shown_from_any_state (by decide) hm _ hw ht 0 1 2 (d := 10) (by rw [hv0]; decide)
  have h4 : u.machine.AtWord
      #[0x60, 0x1A, 0x61, 0x3E, 0x62, 0x1E, 0xF0, 0x29, 0xD1, 0x25] 4 := by
    rw [t.apply_pointGlyph 0] at hu
    rw [← Except.ok.inj hu]
    exact h3.perform t.host rfl
  have hfinal := hsteps h3.awaiting_eq
    (Machine.finds_of_next (h3.next (by omega) (by decide) rfl))
    (Machine.finds_of_next (h4.next (by omega) (by decide) rfl))
  have hlit : ∀ px py, px < 64 → py < 32 →
      w.machine.display.bitAt px py = Font.lights 10 62 30 px py := by
    intro px py hx hy
    rw [hbits px py hx hy, hblank px py hx hy, Bool.false_xor, hv1, hv2]
    rfl
  refine ⟨s, w, hm, hfinal.symm, ?_, ?_, ?_, ?_, ?_⟩
  · rw [hlit 63 30 (by decide) (by decide)]
    decide
  · rw [hlit 62 31 (by decide) (by decide)]
    decide
  · rw [hlit 63 31 (by decide) (by decide)]
    decide
  · rw [hlit 0 30 (by decide) (by decide)]
    decide
  · rw [hlit 62 0 (by decide) (by decide)]
    decide

end ChipEight
