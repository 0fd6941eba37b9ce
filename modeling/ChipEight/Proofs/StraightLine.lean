import ChipEight.Proofs.Loading

/-!
# Straight-line programs

An instruction is straight if execution always goes on right behind it, and if it
reaches memory at most to clear the display. A program of nothing else stays as it
was loaded, so each of its words is the instruction it was, and the program counter
has only to arrive there.

It does as long as it can be represented. The end of a program is a number of any
size, but the program counter has sixteen bits and wraps around. A program that
ends below 65536 is run to its end. Any longer one is left at address 0, where the
font is: its first word is no instruction, and the run ends in a fault.
-/

namespace ChipEight

/-- Whether execution goes on right behind an instruction and it does not use memory. -/
def Instruction.isStraight : Instruction → Bool
  | .clear | .set _ _ | .increase _ _ | .combine _ _ _ | .setIndex _ | .random _ _ | .getDelay _
  | .setDelay _ | .setSound _ | .addIndex _ | .pointGlyph _ => true
  | _ => false

/-- A program that consists of the straight instructions `is`. -/
structure StraightLine (program : Array UInt8) (is : List Instruction) : Prop where
  size_eq : program.size = 2 * is.length
  decode_eq : ∀ k (hk : k < is.length), Instruction.decode (wordAt program k) = .ok is[k]
  straight : ∀ i ∈ is, i.isStraight

variable {size : Nat} {σ : Type} [Host σ] {program : Array UInt8} {is : List Instruction} {k : Nat}

namespace Machine

theorem obstacle?_of_isStraight (m : Machine size) {i : Instruction} (hi : i.isStraight) :
    m.obstacle? i = none := by
  cases i <;> first | exact absurd hi Bool.false_ne_true | rfl

theorem pc_of_isStraight (m : Machine size) (h : σ) {i : Instruction} (hi : i.isStraight) :
    (m.perform h i).1.pc = m.pc + 2 := by
  cases i with
  | combine op x y => cases op <;> rfl
  | _ => first | exact absurd hi Bool.false_ne_true | rfl

theorem awaiting_of_isStraight (m : Machine size) (h : σ) {i : Instruction} (hi : i.isStraight) :
    (m.perform h i).1.awaiting = m.awaiting := by
  rw [awaiting_perform]
  cases i <;> first | exact absurd hi Bool.false_ne_true | rfl

theorem low_of_isStraight (m : Machine size) (h : σ) {i : Instruction} (hi : i.isStraight) :
    (m.perform h i).1.memory.low = m.memory.low := by
  rw [low_perform]
  cases i <;> first | exact absurd hi Bool.false_ne_true | rfl

/-- A machine that has carried out `k` instructions of a straight-line program. -/
structure AtWord (m : Machine size) (program : Array UInt8) (k : Nat) : Prop where
  pc_eq : m.pc = UInt16.ofNat (512 + 2 * k)
  awaiting_eq : m.awaiting = none
  low_eq : m.memory.low = (Memory.initial size program).low
  programEnd_eq : m.programEnd = 512 + program.size

theorem atWord_of_load {m : Machine size} (h : load size program = .ok m) :
    m.AtWord program 0 := by
  obtain ⟨_, rfl⟩ := load_eq_ok_iff.mp h
  exact ⟨rfl, rfl, rfl, rfl⟩

theorem AtWord.pc_toNat {m : Machine size} (h : m.AtWord program k) (hk : 512 + 2 * k < 65536) :
    m.pc.toNat = 512 + 2 * k := by
  rw [h.pc_eq]
  exact UInt16.toNat_ofNat_of_lt' hk

theorem AtWord.next {m : Machine size} {i : Instruction} (h : m.AtWord program k)
    (hd : 512 + (2 * k + 1) < Layout.displayStart size) (hk : 512 + 2 * k < 65536)
    (hi : Instruction.decode (wordAt program k) = .ok i) : m.next = .ok (wordAt program k, i) :=
  next_of_low h.low_eq (h.pc_toNat hk) hd hi

/-- The first two bytes of the font are no instruction. -/
theorem next_of_pc_eq_zero {m : Machine size} (hl : m.memory.low = (Memory.initial size program).low)
    (hpc : m.pc = 0) (hs : 768 ≤ size) : m.next = .error (.unknownInstruction 0xF090) := by
  have hd : 512 ≤ Layout.displayStart size := by rw [Layout.displayStart_eq]; omega
  have h0 : m.memory.byte 0 = 0xF0 := by
    rw [Memory.byte_eq_of_low hl (by omega), Memory.byte_initial_font (by decide) hd]
    rfl
  have h1 : m.memory.byte 1 = 0x90 := by
    rw [Memory.byte_eq_of_low hl (by omega), Memory.byte_initial_font (by decide) hd]
    rfl
  have hz : m.pc.toNat = 0 := by rw [hpc]; rfl
  have hf : m.fetch = .ok 0xF090 := by
    rw [fetch_of_le (by omega), hz, h0, h1]
    rfl
  have hu : Instruction.decode 0xF090 = .error (.unknownInstruction 0xF090) := by rfl
  simp only [next, hf, hu]

/-- Where the program counter goes on and memory below the display stays, the next word follows. -/
theorem AtWord.succ {m m' : Machine size} (h : m.AtWord program k) (hpc : m'.pc = m.pc + 2)
    (hx : m'.awaiting = m.awaiting) (hl : m'.memory.low = m.memory.low)
    (hp : m'.programLength = m.programLength) : m'.AtWord program (k + 1) where
  pc_eq := by
    rw [hpc, h.pc_eq]
    exact (UInt16.ofNat_add (512 + 2 * k) 2).symm
  awaiting_eq := hx.trans h.awaiting_eq
  low_eq := hl.trans h.low_eq
  programEnd_eq := by rw [← h.programEnd_eq, programEnd, programEnd, hp]

/-- A straight instruction leads to the next one. -/
theorem AtWord.perform {m : Machine size} (h : m.AtWord program k) (g : σ) {i : Instruction}
    (hi : i.isStraight) : (m.perform g i).1.AtWord program (k + 1) :=
  h.succ (pc_of_isStraight m g hi) (awaiting_of_isStraight m g hi) (low_of_isStraight m g hi)
    (programLength_perform m g i)

end Machine

omit [Host σ] in
/-- A program that fits can be loaded under any host, and then execution is at its first word. -/
theorem Session.exists_atWord_host (size : Nat) (program : Array UInt8) (h : σ)
    (hc : program.size ≤ size - 864) :
    ∃ s : Session size σ,
      s.host = h ∧ Machine.load size program = .ok s.machine ∧ s.machine.AtWord program 0 := by
  have hm : Machine.load size program = .ok (Machine.fresh size program) :=
    Machine.load_eq_ok_iff.mpr ⟨hc, rfl⟩
  exact ⟨⟨_, h⟩, rfl, hm, Machine.atWord_of_load hm⟩

omit [Host σ] in
/-- The same, where it does not matter who the host is. -/
theorem Session.exists_atWord (size : Nat) (program : Array UInt8) (h : σ)
    (hc : program.size ≤ size - 864) :
    ∃ s : Session size σ,
      Machine.load size program = .ok s.machine ∧ s.machine.AtWord program 0 := by
  obtain ⟨s, -, hs⟩ := Session.exists_atWord_host size program h hc
  exact ⟨s, hs⟩

/-- A step at a word of the program that nothing stands in the way of. -/
theorem Session.step_of_atWord {s : Session size σ} {i : Instruction}
    (hs : s.machine.AtWord program k) (hd : 512 + (2 * k + 1) < Layout.displayStart size)
    (hpc : 512 + 2 * k < 65536) (hi : Instruction.decode (wordAt program k) = .ok i)
    (ho : s.machine.obstacle? i = none) :
    s.step.event = .executed (wordAt program k) i
      ∧ s.after .step = ⟨(s.machine.perform s.host i).1, (s.machine.perform s.host i).2⟩ :=
  Session.step_of_next hs.awaiting_eq (hs.next hd hpc hi) ho

/-- A step at a straight instruction leads to the next word. -/
theorem Session.step_of_isStraight {s : Session size σ} {i : Instruction}
    (hs : s.machine.AtWord program k) (hd : 512 + (2 * k + 1) < Layout.displayStart size)
    (hpc : 512 + 2 * k < 65536) (hi : Instruction.decode (wordAt program k) = .ok i)
    (hst : i.isStraight) :
    s.step.event = .executed (wordAt program k) i
      ∧ s.after .step = ⟨(s.machine.perform s.host i).1, (s.machine.perform s.host i).2⟩
      ∧ (s.after .step).machine.AtWord program (k + 1) := by
  obtain ⟨h1, h2⟩ := Session.step_of_atWord hs hd hpc hi (s.machine.obstacle?_of_isStraight hst)
  refine ⟨h1, h2, ?_⟩
  rw [h2]
  exact hs.perform s.host hst

namespace StraightLine

/-- Where an instruction is left, the machine carries it out and has it behind it. -/
theorem step (hp : StraightLine program is) (hc : program.size ≤ size - 864)
    {s : Session size σ} (hs : s.machine.AtWord program k) (hk : k < is.length)
    (hpc : 512 + 2 * k < 65536) :
    s.step.event = .executed (wordAt program k) is[k]
      ∧ (s.after .step).machine.AtWord program (k + 1) := by
  have hd : 512 + (2 * k + 1) < Layout.displayStart size := by
    have := hp.size_eq
    rw [Layout.displayStart_eq]; omega
  obtain ⟨h1, -, h2⟩ := Session.step_of_isStraight hs hd hpc (hp.decode_eq k hk)
    (hp.straight _ (List.getElem_mem hk))
  exact ⟨h1, h2⟩

/--
**The first instructions are carried out one after the other.**

This goes on for as many of them as there are addresses to fetch them from.
-/
theorem steps (hp : StraightLine program is) {s : Session size σ}
    (hm : Machine.load size program = .ok s.machine) (n : Nat) (hn : n ≤ is.length)
    (hpc : 512 + 2 * n ≤ 65536) :
    ∃ (t : Session size σ) (xs : List (Moment size σ)), s.RunsThrough xs t
      ∧ t.machine.AtWord program n
      ∧ xs.length = n
      ∧ xs.map Moment.executed? = (is.take n).map some
      ∧ xs.map (·.before.machine.pc.toNat) = List.range' 512 n 2 := by
  have hc : program.size ≤ size - 864 := (Machine.load_eq_ok_iff.mp hm).1
  -- upward from none, so that each step is put behind those before it
  induction n with
  | zero => exact ⟨s, [], .nil s, Machine.atWord_of_load hm, rfl, rfl, rfl⟩
  | succ n ih =>
    obtain ⟨t, xs, hr, ht, hlen, hx, hpcs⟩ := ih (by omega) (by omega)
    obtain ⟨he, ht'⟩ := hp.step hc ht hn (by omega)
    have hlt : t.machine.pc.toNat < t.machine.programEnd := by
      rw [ht.pc_toNat (by omega), ht.programEnd_eq, hp.size_eq]
      omega
    have hd : t.step.event.outcome = .done := by rw [he]; rfl
    refine ⟨_, xs ++ [⟨t, .step⟩], hr.append (.step hlt hd), ht', ?_, ?_, ?_⟩
    · rw [List.length_append, hlen, List.length_singleton]
    · have hlast : Moment.executed? ⟨t, .step⟩ = some is[n] := by
        rw [Moment.executed?, he]
        rfl
      rw [List.map_append, hx, List.take_succ_eq_append_getElem hn, List.map_append,
        List.map_singleton, List.map_singleton, hlast]
    · rw [List.map_append, hpcs, List.range'_concat, List.map_singleton,
        ht.pc_toNat (by omega), Nat.mul_comm]

/-- A program that ends where the program counter can get to is run to its end. -/
theorem run_of_lt (hp : StraightLine program is) {s : Session size σ}
    (hm : Machine.load size program = .ok s.machine) (hl : 512 + program.size < 65536) :
    (s.machine.run s.host).halt = .endOfProgram
      ∧ (s.machine.run s.host).machine.pc.toNat = 512 + program.size
      ∧ (s.trail [.run]).map Moment.executed? = is.map some
      ∧ (s.trail [.run]).map (·.before.machine.pc.toNat) = List.range' 512 is.length 2 := by
  have hsize := hp.size_eq
  obtain ⟨t, xs, hr, ht, hlen, hx, hpcs⟩ := hp.steps hm is.length (Nat.le_refl _) (by omega)
  have hpc : t.machine.pc.toNat = 512 + program.size := by
    rw [ht.pc_toNat (by omega), hsize]
  have hend : t.machine.programEnd ≤ t.machine.pc.toNat :=
    Nat.le_of_eq (ht.programEnd_eq.trans hpc.symm)
  -- the run has steps left, but takes none of them
  obtain ⟨budget, hrun, htrail⟩ := hr.rest (by rw [hlen, Machine.maxRunSteps]; omega)
  rw [Session.runTrail_of_end _ hend, List.append_nil] at htrail
  rw [hrun, runFor_of_end _ budget () hend, htrail]
  exact ⟨rfl, hpc, by rw [hx, List.take_length], hpcs⟩

/-- A longer one is left at the first word of the font, which is no instruction. -/
theorem run_of_le (hp : StraightLine program is) {s : Session size σ}
    (hm : Machine.load size program = .ok s.machine) (hl : 65536 ≤ 512 + program.size) :
    (s.machine.run s.host).halt = .fault (.unknownInstruction 0xF090)
      ∧ (s.machine.run s.host).machine.pc = 0
      ∧ (s.trail [.run]).map Moment.executed? = (is.take 32512).map some ++ [none] := by
  have hsize := hp.size_eq
  have hc : program.size ≤ size - 864 := (Machine.load_eq_ok_iff.mp hm).1
  obtain ⟨t, xs, hr, ht, hlen, hx, -⟩ := hp.steps hm 32512 (by omega) (by omega)
  -- 512 + 2 * 32512 is 65536, which has come round to zero
  have hpc : t.machine.pc = 0 := ht.pc_eq
  have hlt : t.machine.pc.toNat < t.machine.programEnd := by
    rw [hpc, ht.programEnd_eq]
    exact Nat.lt_of_lt_of_le (by decide) (Nat.le_add_right 512 _)
  have hs := Machine.step_of_next_error ht.awaiting_eq
    (Machine.next_of_pc_eq_zero ht.low_eq hpc (by omega)) t.host
  change t.step = _ at hs
  obtain ⟨budget, hrun, htrail⟩ := hr.rest (by rw [hlen, Machine.maxRunSteps]; omega)
  have hf : t.step.event.outcome = .failed (.unknownInstruction 0xF090) := by rw [hs]; rfl
  have hd : t.step.event.outcome ≠ .done := by
    rw [hf]
    intro h
    cases h
  rw [Session.runTrail_of_ne_done budget hlt hd] at htrail
  rw [hrun, runFor_of_failed _ budget () hlt hf, htrail, hs]
  refine ⟨rfl, hpc, ?_⟩
  rw [List.map_append, hx, List.map_singleton, Moment.executed?, hs]
  rfl

end StraightLine

/--
**A straight-line program runs to its end, if the program counter can get there.**

A run of it carries out each of its instructions once and in order, and then it is
right behind the last one. If there is no address for that, the run carries out
the 32512 instructions up to the last address there is, and fails on the font.
-/
theorem straight_line_runs_to_end (hp : StraightLine program is) {s : Session size σ}
    (hm : Machine.load size program = .ok s.machine) :
    (512 + program.size < 65536 →
        (s.machine.run s.host).halt = .endOfProgram
          ∧ (s.machine.run s.host).machine.pc.toNat = 512 + program.size
          ∧ (s.trail [.run]).map Moment.executed? = is.map some
          ∧ (s.trail [.run]).map (·.before.machine.pc.toNat) = List.range' 512 is.length 2)
      ∧ (65536 ≤ 512 + program.size →
        (s.machine.run s.host).halt = .fault (.unknownInstruction 0xF090)
          ∧ (s.machine.run s.host).machine.pc = 0
          ∧ (s.trail [.run]).map Moment.executed? = (is.take 32512).map some ++ [none]) :=
  ⟨hp.run_of_lt hm, hp.run_of_le hm⟩

/-- An addition of 200 and 100 is such a program. -/
theorem straight_line_runs_to_end_sum :
    ∃ s : Session 4096 Headless,
      Machine.load 4096 #[0x60, 0xC8, 0x61, 0x64, 0x80, 0x14] = .ok s.machine
        ∧ (s.machine.run s.host).halt = .endOfProgram
        ∧ (s.machine.run s.host).machine.pc.toNat = 518
        ∧ (s.trail [.run]).map Moment.executed?
          = [some (.set 0 200), some (.set 1 100), some (.combine .add 0 1)] := by
  have hp : StraightLine #[0x60, 0xC8, 0x61, 0x64, 0x80, 0x14]
      [.set 0 200, .set 1 100, .combine .add 0 1] := by
    refine ⟨rfl, fun k hk => ?_, by decide⟩
    match k, hk with
    | 0, _ => rfl
    | 1, _ => rfl
    | 2, _ => rfl
  have hm : Machine.load 4096 #[0x60, 0xC8, 0x61, 0x64, 0x80, 0x14]
      = .ok (Machine.fresh 4096 #[0x60, 0xC8, 0x61, 0x64, 0x80, 0x14]) :=
    Machine.load_eq_ok_iff.mpr ⟨by decide, rfl⟩
  let s : Session 4096 Headless := ⟨.fresh 4096 #[0x60, 0xC8, 0x61, 0x64, 0x80, 0x14], ⟨⟩⟩
  obtain ⟨h1, h2, h3, -⟩ := (straight_line_runs_to_end hp (s := s) hm).1 (by decide)
  exact ⟨s, hm, h1, h2, h3⟩

/-- With memory enough for it, the shortest program that is too long does not run to its end. -/
theorem straight_line_fails_at_wrap :
    ∃ s : Session 70000 Headless,
      StraightLine (Array.replicate 65024 0x60) (List.replicate 32512 (.set 0 0x60))
        ∧ 32512 < Machine.maxRunSteps
        ∧ Machine.load 70000 (Array.replicate 65024 0x60) = .ok s.machine
        ∧ (s.machine.run s.host).halt = .fault (.unknownInstruction 0xF090)
        ∧ (s.machine.run s.host).machine.pc = 0 := by
  have hb : ∀ a < 65024, (Array.replicate 65024 0x60).getD a 0 = (0x60 : UInt8) := by
    intro a ha
    rw [Array.getD_eq_getD_getElem?, Array.getElem?_replicate, if_pos ha]
    rfl
  have hp : StraightLine (Array.replicate 65024 0x60)
      (List.replicate 32512 (.set 0 0x60)) := by
    refine ⟨by rw [Array.size_replicate, List.length_replicate], fun k hk => ?_, fun i hi => ?_⟩
    · rw [List.length_replicate] at hk
      have hw : wordAt (Array.replicate 65024 0x60) k = 0x6060 := by
        rw [wordAt, hb _ (by omega), hb _ (by omega)]
        rfl
      rw [hw, List.getElem_replicate]
      rfl
    · rw [List.eq_of_mem_replicate hi]
      rfl
  have hm : Machine.load 70000 (Array.replicate 65024 0x60)
      = .ok (Machine.fresh 70000 (Array.replicate 65024 0x60)) :=
    Machine.load_eq_ok_iff.mpr ⟨by rw [Array.size_replicate]; decide, rfl⟩
  let s : Session 70000 Headless := ⟨.fresh 70000 (Array.replicate 65024 0x60), ⟨⟩⟩
  obtain ⟨h1, h2, -⟩ := hp.run_of_le (s := s) hm
    (Nat.le_of_eq (by rw [Array.size_replicate]))
  exact ⟨s, hp, by decide, hm, h1, h2⟩

end ChipEight
