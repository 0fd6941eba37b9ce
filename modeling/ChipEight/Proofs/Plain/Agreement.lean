import ChipEight.Proofs.Plain.Step
import ChipEight.Proofs.WellFormed

/-!
# Nothing is ever out of range

The machine on plain data does what the machine does, from the load on and whatever is
asked of it, and so it never stops at an access that is not covered. The lines that it writes for
a log on the way are those of the steps that are made.

Instructions need nothing for it but a memory that has room for the display. It is only
the end of the program that has to be known to fit into an address, and for that the
machine has to be one that was loaded: `WellFormed` keeps the length of its program.
-/

namespace ChipEight

open Checked

variable {limit size : Nat} {σ α : Type} [Host σ]

namespace Plain

/-! ## A run -/

/-- A run comes to the same, and writes the lines of the steps that it takes. -/
theorem runFor_plain (hlimit : 65552 ≤ limit) (hsize : 256 ≤ size)
    (gather : α → UInt16 → Account → α) (budget : Nat) (a : α) (s : Session size σ) :
    runFor limit size s.machine.programEnd budget s.machine.plain s.host
      = .ok ((s.machine.runFor gather budget a s.host).halt,
          (s.machine.runFor gather budget a s.host).machine.plain,
          (s.machine.runFor gather budget a s.host).host,
          linesOf (Session.runTrail budget s)) := by
  induction budget generalizing a s with
  | zero => rfl
  | succ budget ih =>
    have hstep : s.machine.plain.step limit size s.host = .ok s.step.plain :=
      step_plain hlimit hsize s.machine s.host
    rw [runFor, s.machine.plain_pc]
    cases runCases gather budget a s with
    | ended h hr ht =>
      rw [if_pos h, hr, ht]
      rfl
    | went h ho hr ht =>
      have hend : (s.after .step).machine.programEnd = s.machine.programEnd :=
        s.machine.programEnd_step s.host
      have hrest := ih (gather a s.machine.pc s.step.toAccount) (s.after .step)
      rw [hend] at hrest
      rw [if_neg (Nat.not_le.mpr h), hstep, ok_bind, Step.plain, ho, hr, ht, linesOf_cons]
      exact congrArg (· >>= _) hrest
    | @stopped k h hk hr ht =>
      rw [if_neg (Nat.not_le.mpr h), hstep, ok_bind, Step.plain, hr, ht, linesOf_singleton]
      cases ho : s.step.event.outcome with
      | done =>
        rw [ho] at hk
        cases hk
      | blocked | failed e =>
        rw [ho] at hk
        cases hk
        rfl

theorem run_plain (hlimit : 65552 ≤ limit) (hsize : 865 ≤ size) (hword : size < limit)
    {s : Session size σ} (hs : s.machine.WellFormed) :
    s.machine.plain.run limit size s.host
      = .ok ((s.machine.run s.host).halt, (s.machine.run s.host).machine.plain,
          (s.machine.run s.host).host, linesOf (s.moments .run)) := by
  have hp : Layout.programStart + s.machine.programLength < limit := by
    have := hs.programLength_le
    rw [Layout.programStart]
    omega
  rw [run]
  change (add limit Layout.programStart s.machine.programLength >>= _) = _
  rw [add_of_lt hp, ok_bind]
  exact runFor_plain hlimit (by omega) _ _ _ s

/-! ## A tick -/

theorem countDown_value (t : Timer) : countDown t.value = .ok (t.next.value, t.report) := by
  have hn := t.toNat_next
  rw [countDown, Timer.report]
  by_cases h0 : t.value = 0
  · rw [Timer.next, if_pos h0, if_pos h0, h0]
    rfl
  · have hpos : 0 < t.value.toNat :=
      Nat.pos_of_ne_zero fun h => h0 (UInt8.toNat_inj.mp h)
    have hv : UInt8.ofNat (t.value.toNat - 1) = t.next.value := by
      rw [← hn, UInt8.ofNat_toNat]
    have h1 : t.value.toNat - 1 = 0 ↔ t.value = 1 := by
      rw [← UInt8.toNat_inj, UInt8.toNat_one]
      omega
    have hlt : 0 < t.value := UInt8.lt_iff_toNat_lt.mpr hpos
    rw [if_pos hlt, sub_of_le hpos, ok_bind, hv, if_neg h0]
    simp only [h1]
    rfl

theorem tick_plain (m : Machine size) : m.plain.tick = .ok (m.tick.plain, m.tickReport) := by
  rw [tick]
  change (countDown m.delay.value >>= _) = _
  rw [countDown_value, ok_bind]
  change (countDown m.sound.value >>= _) = _
  rw [countDown_value, ok_bind]
  rfl

/-! ## Load -/

section Load

variable {program : Array UInt8} {a : Nat}

/-- What is where after a load. -/
theorem getElem_initial (hsize : 865 ≤ size) (hp : program.size ≤ size - 864) (ha : a < size) :
    (Memory.initial size program)[a] =
      if h : a < 80 then Font.table[a] else if a < 512 then 0 else program.getD (a - 512) 0 := by
  by_cases hl : a < Layout.displayStart size
  · rw [Memory.getElem_of_lt _ ha hl]
    simp only [Memory.initial, Vector.getElem_ofFn]
    rfl
  · -- the display is blank, and the program ends before it
    have hd := Layout.displayStart_eq size
    obtain ⟨k, e⟩ : ∃ k, a = Layout.displayStart size + k :=
      ⟨a - Layout.displayStart size, by omega⟩
    have hk : k < 256 := by omega
    have hz : program.getD (a - 512) 0 = 0 := dif_neg (by omega)
    rw [Memory.getElem_of_le _ ha hk e, dif_neg (by omega), if_neg (by omega), hz]
    simp only [Memory.initial, Display.blank, Vector.getElem_replicate]

/-- Memory that holds the font, and no program yet. -/
def withFont (size : Nat) : List UInt8 := Font.table.toList ++ List.replicate (size - 80) 0

theorem length_withFont (h : 80 ≤ size) : (withFont size).length = size := by
  rw [withFont, List.length_append, Vector.length_toList, List.length_replicate]
  omega

theorem getElem?_withFont (ha : a < size) :
    (withFont size)[a]? = some (if h : a < 80 then Font.table[a] else 0) := by
  rw [withFont]
  split
  · rename_i h
    rw [List.getElem?_append_left (by rwa [Vector.length_toList]),
      List.getElem?_eq_getElem (by rwa [Vector.length_toList]), Vector.getElem_toList]
  · rename_i h
    rw [List.getElem?_append_right (by rw [Vector.length_toList]; omega), Vector.length_toList,
      List.getElem?_replicate_of_lt (by omega)]

/-- The program replaces as much of it as it is long. -/
theorem bytes_initial (hsize : 865 ≤ size) (hp : program.size ≤ size - 864) :
    (Memory.initial size program).bytes
      = (withFont size).take 512 ++ program.toList ++ (withFont size).drop (512 + program.size) := by
  have hl := length_withFont (by omega : 80 ≤ size)
  have ht : ((withFont size).take 512).length = 512 := by
    rw [List.length_take, hl]
    omega
  have hq : program.toList.length = program.size := Array.length_toList
  refine Memory.ext_bytes (by omega) ?_ fun a ha => ?_
  · rw [List.length_append, List.length_append, List.length_drop, ht, hl, hq]
    omega
  · rw [getElem_initial hsize hp ha, List.append_assoc]
    by_cases h512 : a < 512
    · rw [List.getElem?_append_left (by rwa [ht]), List.getElem?_take_of_lt h512,
        getElem?_withFont ha, if_pos h512]
    · rw [dif_neg (by omega), if_neg h512, List.getElem?_append_right (by rw [ht]; omega), ht]
      by_cases hend : a - 512 < program.size
      · have hb : program.getD (a - 512) 0 = program[a - 512] := dif_pos hend
        rw [List.getElem?_append_left (by rwa [hq]), Array.getElem?_toList,
          Array.getElem?_eq_getElem hend, hb]
      · have hle : program.toList.length ≤ a - 512 :=
          Nat.le_trans (Nat.le_of_eq hq) (Nat.not_lt.mp hend)
        have hz : program.getD (a - 512) 0 = 0 := dif_neg hend
        have he : 512 + program.size + (a - 512 - program.size) = a := by omega
        rw [List.getElem?_append_right hle, List.getElem?_drop, hq, he,
          getElem?_withFont ha, dif_neg (by omega), hz]

/-- **A load copies nothing to where it does not fit.** -/
theorem load_plain (hsize : 865 ≤ size) (hword : size < limit) (program : Array UInt8) :
    load limit size program.toList = .ok ((Machine.load size program).map Machine.plain) := by
  have hvalid : Layout.IsValid size := (Layout.isValid_iff size).mpr hsize
  have hslot : Layout.callStackStart size + Layout.stackBytes < limit := by
    rw [Layout.callStackStart, Layout.displayStart_eq, Layout.reservedBytes, Layout.stackBytes,
      Layout.stackDepth]
    omega
  rw [load, if_neg (not_not_intro hvalid)]
  dsimp only
  rw [add_of_lt hslot, ok_bind, Machine.load, Array.length_toList]
  by_cases hp : program.size ≤ Layout.capacity size
  · have hle := hp
    rw [Layout.capacity_eq] at hle
    have hfont : copy (List.replicate size (0 : UInt8)) 0 80 Font.table.toList
        = .ok (withFont size) := by
      rw [copy_zero Vector.length_toList (by rw [List.length_replicate]; omega),
        List.drop_replicate]
      rfl
    have hprogram : copy (withFont size) 512 (512 + program.size) program.toList
        = .ok (Memory.initial size program).bytes := by
      have hfits : 512 + program.toList.length ≤ (withFont size).length := by
        rw [length_withFont (by omega), Array.length_toList]
        omega
      rw [bytes_initial hsize hle]
      exact copy_of_le hfits
    rw [if_neg (Nat.not_lt.mpr hp), if_pos hp, hfont, ok_bind, Layout.programStart,
      add_of_lt (by omega), ok_bind, hprogram, ok_bind]
    rfl
  · rw [if_pos (Nat.not_le.mp hp), if_neg hp]
    rfl

end Load

/-! ## Whatever is asked -/

theorem request_plain (hlimit : 65552 ≤ limit) (hsize : 865 ≤ size) (hword : size < limit)
    {s : Session size σ} (hs : s.machine.WellFormed) (r : Request σ) :
    s.machine.plain.request limit size s.host r
      = .ok (s.reply r, (s.request r).machine.plain, (s.request r).host,
          linesOf (s.moments r)) := by
  cases r with
  | run =>
    rw [request, run_plain hlimit hsize hword hs, ok_bind]
    rfl
  | move mv =>
    cases mv with
    | step =>
      rw [request, step_plain hlimit (by omega), ok_bind, Session.moments, linesOf_singleton]
      rfl
    | tick =>
      rw [request, tick_plain, ok_bind]
      rfl
    | alter h => rfl

theorem requests_plain (hlimit : 65552 ≤ limit) (hsize : 865 ≤ size) (hword : size < limit)
    {s : Session size σ} (hs : s.machine.WellFormed) (rs : List (Request σ)) :
    s.machine.plain.requests limit size s.host rs
      = .ok (s.replies rs, (s.requests rs).machine.plain, (s.requests rs).host,
          linesOf (s.trail rs)) := by
  induction rs generalizing s with
  | nil => rfl
  | cons r rs ih =>
    have hr : (s.request r).machine.WellFormed := (history_moments s r).wellFormed hs
    rw [requests, request_plain hlimit hsize hword hs, ok_bind]
    dsimp only
    rw [ih hr, ok_bind, Session.trail, linesOf_append]
    rfl

theorem pixel_plain (hlimit : 65552 ≤ limit) (hsize : 256 ≤ size) (m : Machine size) (x y : Nat) :
    m.plain.pixel limit size x y = .ok (m.display.pixel x y) := by
  rw [pixel, screen_plain m hsize, ok_bind, Screen.pixel_toList (by omega)]

theorem isLit_plain (hlimit : 65552 ≤ limit) (hsize : 256 ≤ size) (m : Machine size) (x y : Nat) :
    m.plain.isLit limit size x y = .ok (m.display.isLit x y) := by
  rw [isLit, pixel_plain hlimit hsize, ok_bind]
  rfl

end Plain

/--
**No access is ever out of range.**

A load of any program comes to an end, with a machine or with the error that there is
no room. From there every list of requests is answered as by the machine itself, under
any host, with the lines in the log that its steps are worth, and afterwards every pixel can be
asked for. Numbers that are addresses have
to be wide enough for the size of memory, and wider than the index register.
-/
theorem accesses_in_range (hlimit : 65552 ≤ limit) (hsize : 865 ≤ size) (hword : size < limit)
    (program : Array UInt8) :
    Plain.load limit size program.toList = .ok ((Machine.load size program).map Machine.plain)
      ∧ ∀ s : Session size σ, Machine.load size program = .ok s.machine →
          ∀ rs : List (Request σ),
            s.machine.plain.requests limit size s.host rs
                = .ok (s.replies rs, (s.requests rs).machine.plain, (s.requests rs).host,
                    linesOf (s.trail rs))
              ∧ ∀ x y,
                  (s.requests rs).machine.plain.pixel limit size x y
                      = .ok ((s.requests rs).machine.display.pixel x y)
                    ∧ (s.requests rs).machine.plain.isLit limit size x y
                      = .ok ((s.requests rs).machine.display.isLit x y) := by
  refine ⟨Plain.load_plain hsize hword program, fun s hs rs => ⟨?_, fun x y => ⟨?_, ?_⟩⟩⟩
  · exact Plain.requests_plain hlimit hsize hword (Machine.wellFormed_of_load hs) rs
  · exact Plain.pixel_plain hlimit (by omega) _ x y
  · exact Plain.isLit_plain hlimit (by omega) _ x y

/-- The highest sprite, drawn from the font in the smallest memory that holds a word. -/
theorem accesses_in_range_sprite :
    ∃ s t : Session 866 Headless, Machine.load 866 #[0xD0, 0x0F] = .ok s.machine
      ∧ t = s.requests [.move .step]
      ∧ s.machine.plain.requests 4294967296 866 s.host [.move .step]
          = .ok ([.stepped .done], t.machine.plain, t.host,
              ["TRACE 0x200: D00F _DXYN \x7b x: 0, y: 0, n: 15 \x7d"])
      ∧ t.machine.plain.pixel 4294967296 866 64 0 = .ok none := by
  let s : Session 866 Headless := ⟨.fresh 866 #[0xD0, 0x0F], ⟨⟩⟩
  have hm : Machine.load 866 #[0xD0, 0x0F] = .ok s.machine :=
    Machine.load_eq_ok_iff.mpr ⟨by decide, rfl⟩
  have hn : s.machine.next = .ok (wordAt #[0xD0, 0x0F] 0, .draw 0 0 15) := by
    refine Machine.next_of_low rfl rfl ?_ rfl
    rw [Layout.displayStart_eq]; decide
  have he : s.step.event = .executed (wordAt #[0xD0, 0x0F] 0) (.draw 0 0 15) :=
    (Session.step_of_next (s := s) rfl hn rfl).1
  have hreply : s.replies [.move .step] = [.stepped .done] := by
    change [Reply.stepped s.step.event.outcome] = _
    rw [he]
    rfl
  have hrecords : s.step.records = [.dispatched 0x200 0xD00F (.draw 0 0 15)] := by
    have hw : wordAt #[0xD0, 0x0F] 0 = 0xD00F := by decide
    rw [s.records_step, he, hw]
    rfl
  have hlines : linesOf (s.trail [.move .step])
      = ["TRACE 0x200: D00F _DXYN \x7b x: 0, y: 0, n: 15 \x7d"] := by
    change linesOf [⟨s, .step⟩] = _
    rw [linesOf_singleton, Moment.records, hrecords]
    decide
  obtain ⟨hr, hp⟩ := (accesses_in_range (by decide : 65552 ≤ 4294967296) (by decide)
    (by decide : 866 < 4294967296) #[0xD0, 0x0F]).2 s hm [.move .step]
  rw [hreply, hlines] at hr
  exact ⟨s, _, hm, rfl, hr, (hp 64 0).1⟩

end ChipEight
