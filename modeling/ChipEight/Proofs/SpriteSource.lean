import ChipEight.Proofs.Drawing
import ChipEight.Proofs.Footprint

/-!
# Where a sprite comes from

A sprite is read from memory, and the display is in memory too. So a sprite can be made of what
is on the screen, and it can be drawn over the very bytes that it is read from. It is read
to the end before any of it is drawn. Where it goes is read then as well, and that may be
the flag register, which is written last.

So three stretches of bytes are to be kept apart that may be the same: those the sprite is
read from, those that it is drawn on, and those that are left alone.
-/

namespace ChipEight

variable {size : Nat} {σ : Type} [Host σ]

namespace Display

/-- The bits of a byte of the display, from left to right, are eight pixels of one row. -/
theorem testBit_byte (d : Display) (c : Nat) {j : Nat} (hj : j < 8) :
    (d.bytes.toList.getD c 0).toNat.testBit (7 - j) = d.bitAt (8 * (c % 8) + j) (c / 8) := by
  have hbyte : 8 * (c / 8) + (8 * (c % 8) + j) / 8 = c := by omega
  have hbit : (8 * (c % 8) + j) % 8 = j := by omega
  rw [bitAt, hbyte, hbit]

/-- A sprite is eight columns wide. -/
theorem column_of_covers {x y px py : Nat} {sprite : List UInt8}
    (h : covers x y sprite px py = true) : x ≤ px ∧ px < x + 8 := by
  rw [covers, Bool.and_eq_true, decide_eq_true_eq] at h
  exact h.1.2

end Display

namespace Memory

/-- A byte that is read from the display. -/
theorem getD_of_display (mem : Memory size) {start count k : Nat} (hk : k < count)
    (hd : Layout.displayStart size ≤ start + k) :
    ((mem.bytes.drop start).take count).getD k 0
      = mem.display.bytes.toList.getD (start + k - Layout.displayStart size) 0 := by
  rw [← drop_bytes, List.getD_eq_getElem?_getD, List.getD_eq_getElem?_getD,
    List.getElem?_take_of_lt hk, List.getElem?_drop, List.getElem?_drop, Nat.add_sub_of_le hd]

end Memory

namespace Session

variable {t : Session size σ} {x y : Register} {rows : Nibble}

/-- Where memory has the whole sprite, nothing stands in the way of drawing it. -/
theorem step_of_draw (hx : t.machine.awaiting = none) (hi : t.machine.Finds (.draw x y rows))
    (hr : t.machine.index.toNat + rows.val ≤ size) :
    t.step.event = .executed (Instruction.draw x y rows).toWord (.draw x y rows)
      ∧ t.after .step = ⟨(t.machine.perform t.host (.draw x y rows)).1, t.host⟩
      ∧ t.Footprint (t.after .step) (.draw x y rows) := by
  have ho : t.machine.obstacle? (.draw x y rows) = none := by
    rw [Machine.obstacle?_of_span? _ rfl, Memory.overrun?_eq_none_iff]
    exact hr
  obtain ⟨he, ha⟩ := Session.step_of_finds hx hi ho
  exact ⟨he, ha, Session.footprint_of_finds hx hi ho⟩

end Session

/--
**A sprite is drawn as it was in memory before, wherever that was.**

`sprite` is what is in memory before the step from the index register on, and (`a`, `b`) are the
values of VX and VY then. The screen afterwards is the one before with this sprite drawn on
it, and this is what the loops make of the bytes of the display. Those rows that are read from
the display show what the screen showed before. The flag tells whether a pixel was lit that
the sprite covers, also where VX or VY is the flag register. The footprint is that of any
drawing: the flag, the bytes of the display, and nothing else.
-/
theorem sprite_read_before_drawn (hsize : 256 ≤ size) {t u : Session size σ} {x y : Register}
    {rows : Nibble} (hx : t.machine.awaiting = none) (hi : t.machine.Finds (.draw x y rows))
    (hr : t.machine.index.toNat + rows.val ≤ size) {a b : UInt8} (ha : t.machine.v x = a)
    (hb : t.machine.v y = b) {sprite : List UInt8}
    (hs : sprite = (t.machine.memory.bytes.drop t.machine.index.toNat).take rows.val)
    (hu : u = t.after .step) :
    t.step.event.outcome = .done
      ∧ (∀ px py, px < 64 → py < 32 → u.machine.display.bitAt px py
          = (t.machine.display.bitAt px py ^^ Display.covers a.toNat b.toNat sprite px py))
      ∧ (∀ limit, 2048 ≤ limit → ∃ hit : Bool,
          Screen.draw limit (t.machine.memory.bytes.drop (Layout.displayStart size)) a.toNat b.toNat
              sprite
            = .ok (u.machine.memory.bytes.drop (Layout.displayStart size), hit)
          ∧ u.machine.v .flag = hit.toUInt8)
      ∧ (∀ k j c, k < rows.val → j < 8 → t.machine.index.toNat + k = Layout.displayStart size + c →
          (sprite.getD k 0).toNat.testBit (7 - j)
            = t.machine.display.bitAt (8 * (c % 8) + j) (c / 8))
      ∧ (u.machine.v .flag = 1 ∨ u.machine.v .flag = 0)
      ∧ (u.machine.v .flag = 1 ↔ ∃ px py, px < 64 ∧ py < 32
          ∧ t.machine.display.bitAt px py = true
          ∧ Display.covers a.toNat b.toNat sprite px py = true)
      ∧ t.Advances 2
      ∧ t.Footprint u (.draw x y rows) := by
  obtain ⟨he, hstep, hfoot⟩ := Session.step_of_draw hx hi hr
  have hread : t.machine.memory.read t.machine.index.toNat rows.val = sprite := by
    rw [hs, Memory.read_eq _ hsize hr]
  have hdisplay : u.machine.display = t.machine.display.draw a.toNat b.toNat sprite := by
    rw [hu, hstep, ← ha, ← hb, ← hread]
    rfl
  have hflag : u.machine.v .flag
      = (t.machine.display.collides a.toNat b.toNat sprite).toUInt8 := by
    rw [hu, hstep, ← ha, ← hb, ← hread]
    exact Machine.v_perform ..
  have hcollides := Display.collides_iff_bitAt t.machine.display a.toNat b.toNat sprite
  refine ⟨by rw [he]; rfl, fun px py hpx hpy => ?_, fun limit hl => ?_, fun k j c hk hj hc => ?_,
    ?_, ?_, ?_, hu ▸ hfoot⟩
  · rw [hdisplay, Display.bitAt_draw _ _ _ _ hpx hpy]
  · refine ⟨_, ?_, hflag⟩
    rw [Memory.drop_bytes, Memory.drop_bytes]
    refine (Screen.draw_toList hl t.machine.display a b sprite).trans ?_
    rw [← hdisplay]
    rfl
  · rw [hs, Memory.getD_of_display _ hk (by omega), hc, Nat.add_sub_cancel_left,
      ← Display.testBit_byte _ _ hj]
    rfl
  · rw [hflag]
    cases t.machine.display.collides a.toNat b.toNat sprite with
    | true => exact .inl rfl
    | false => exact .inr rfl
  · rw [← hcollides, hflag]
    cases t.machine.display.collides a.toNat b.toNat sprite with
    | true => exact iff_of_true rfl rfl
    | false => exact iff_of_false (by decide) Bool.false_ne_true
  · rcases hfoot.goesTo with ⟨hn, -⟩ | ⟨-, h2⟩
    · exact hn.elim
    · exact h2

/-- The top row of a digit is copied to its right. It is read together with the byte behind it,
which it is drawn on: that byte was blank, so nothing is drawn below the copy. Its place is in the
flag register, which is cleared afterwards. -/
theorem sprite_read_before_drawn_on_itself :
    ∃ s t u : Session 4096 Headless,
      Machine.load 4096 #[0xD0, 0x01, 0xAF, 0x00, 0x6F, 0x08, 0xDF, 0x02] = .ok s.machine
        ∧ t = s.requests [.move .step, .move .step, .move .step]
        ∧ u = s.requests [.move .step, .move .step, .move .step, .move .step]
        ∧ t.machine.Finds (.draw .flag 0 2)
        ∧ t.machine.v .flag = 8
        ∧ t.machine.display.bitAt 8 0 = false
        ∧ u.machine.display.bitAt 8 0 = true
        ∧ u.machine.display.bitAt 8 1 = false
        ∧ u.machine.v .flag = 0 := by
  have hd : Layout.displayStart 4096 = 3840 := Layout.displayStart_eq _
  obtain ⟨s, hm, h0⟩ := Session.exists_atWord 4096
    #[0xD0, 0x01, 0xAF, 0x00, 0x6F, 0x08, 0xDF, 0x02] Headless.mk (by decide)
  have hs := (Machine.load_eq_ok_iff.mp hm).2
  -- the top row of the digit
  have hi0 : s.machine.Finds (.draw 0 0 1) :=
    Machine.finds_of_next (h0.next (by omega) (by decide) rfl)
  have hindex0 : s.machine.index.toNat = 0 := by
    rw [hs]
    rfl
  have hv0 : s.machine.v 0 = 0 := by
    rw [hs]
    exact Vector.getElem_replicate _
  have hbyte0 : s.machine.memory.byte 0 = 0xF0 := by
    rw [Memory.byte_eq_of_low h0.low_eq (by omega), Memory.byte_initial_font (by decide) (by omega)]
    rfl
  have hsprite0 : [0xF0] = (s.machine.memory.bytes.drop s.machine.index.toNat).take 1 := by
    rw [← Memory.read_eq _ (by decide) (by rw [hindex0]; decide), hindex0, ← hbyte0]
    rfl
  have hr0 : s.machine.index.toNat + 1 ≤ 4096 := by omega
  obtain ⟨-, a0, hfoot0⟩ := Session.step_of_draw h0.awaiting_eq hi0 hr0
  have hbits0 : ∀ px py, px < 64 → py < 32 →
      (s.after .step).machine.display.bitAt px py = Display.covers 0 0 [0xF0] px py := by
    intro px py hpx hpy
    have hblank := Display.blank.isBlank_iff.mp (Display.blank.isBlank_iff_eq.mpr rfl)
    have hdisplay : s.machine.display = .blank := by
      rw [hs]
      rfl
    refine ((sprite_read_before_drawn (by decide) h0.awaiting_eq hi0 hr0 hv0 hv0 hsprite0 rfl).2.1
      px py hpx hpy).trans ?_
    rw [hdisplay, hblank px py hpx hpy, Bool.false_xor]
    rfl
  have h1 : (s.after .step).machine.AtWord
      #[0xD0, 0x01, 0xAF, 0x00, 0x6F, 0x08, 0xDF, 0x02] 1 := by
    rw [a0]
    exact h0.succ rfl rfl rfl rfl
  -- then to the display, and to the next eight columns
  obtain ⟨-, a1, h2⟩ :=
    Session.step_of_isStraight (i := .setIndex 0xF00) h1 (by omega) (by decide) rfl rfl
  obtain ⟨-, a2, h3⟩ :=
    Session.step_of_isStraight (i := .set .flag 8) h2 (by omega) (by decide) rfl rfl
  obtain ⟨t, ht⟩ : ∃ t, t = ((s.after .step).after .step).after .step := ⟨_, rfl⟩
  rw [← ht] at a2 h3
  have hdisplay : t.machine.display = (s.after .step).machine.display := by
    rw [a2, a1]
    rfl
  have hindex : t.machine.index.toNat = 3840 := by
    rw [a2, a1]
    rfl
  have hflag : t.machine.v .flag = 8 := by
    rw [a2]
    exact Vector.getElem_set_self _
  have hv : t.machine.v 0 = 0 := by
    rw [← hv0, ← hfoot0.v_eq 0 (by intro h; cases h), a2, a1]
    exact (Machine.v_perform ..).trans (if_neg (by decide))
  -- the row that was drawn, and the blank one
  have hi : t.machine.Finds (.draw .flag 0 2) :=
    Machine.finds_of_next (h3.next (by omega) (by decide) rfl)
  obtain ⟨sprite, hsprite⟩ :
      ∃ sprite, sprite = (t.machine.memory.bytes.drop t.machine.index.toNat).take 2 := ⟨_, rfl⟩
  obtain ⟨-, hbits, -, hrows, hor, hhit, -⟩ := sprite_read_before_drawn (by decide) h3.awaiting_eq
    hi (by omega) hflag hv hsprite rfl
  rw [hdisplay] at hbits hrows hhit
  have hcovers : ∀ k j, k < 2 → j < 8 →
      Display.covers 8 0 sprite (8 + j) k = Display.covers 0 0 [0xF0] (8 * k + j) 0 := by
    intro k j hk hj
    have hbit := hrows k j k hk hj (by omega)
    rw [Nat.mod_eq_of_lt (by omega), Nat.div_eq_of_lt (by omega),
      hbits0 (8 * k + j) 0 (by omega) (by decide)] at hbit
    rw [Display.covers, decide_eq_true (by omega), Bool.true_and, Nat.add_sub_cancel_left, ← hbit]
    rfl
  refine ⟨s, t, t.after .step, hm, ht, by rw [ht]; rfl, hi, hflag, ?_, ?_, ?_, ?_⟩
  · rw [hdisplay, hbits0 8 0 (by decide) (by decide)]
    decide
  · have hc := hcovers 0 0 (by decide) (by decide)
    rw [hbits 8 0 (by decide) (by decide), hbits0 8 0 (by decide) (by decide)]
    exact (congrArg _ hc).trans (by decide)
  · have hc := hcovers 1 0 (by decide) (by decide)
    rw [hbits 8 1 (by decide) (by decide), hbits0 8 1 (by decide) (by decide)]
    exact (congrArg _ hc).trans (by decide)
  · refine hor.resolve_left fun h1 => ?_
    obtain ⟨px, py, hpx, hpy, hl, hc⟩ := hhit.mp h1
    rw [hbits0 px py hpx hpy] at hl
    have hlit := Display.column_of_covers hl
    have hcovered : 8 ≤ px := (Display.column_of_covers hc).1
    omega

end ChipEight
