import ChipEight.Proofs.Lockstep
import ChipEight.Proofs.StraightLine

/-!
# The size of memory

A program cannot ask how much memory there is. It could find out all the same: by
reading where memory has ended, by writing into the display at the end of memory, or
from the flag of an addition to the index register. A machine that does nothing of
the kind is `Confined`. It keeps below its display, and the index register below the
size of its memory.

With a larger memory the display begins further up, and there are more bytes below.
`Machine.resized` is a machine with its memory replaced by one of another size. As long
as a machine is confined, and the two memories agree below the first display and in what
the displays show, the same instruction does the same in both and they still agree
(`perform_resized`). So the two stay in lockstep through any session.
-/

namespace ChipEight

variable {size size' : Nat} {σ : Type}

/-! ## Memories of two sizes -/

namespace Memory

/-- The memories agree below the display of the first, and their displays show the same. -/
structure Agree (mem : Memory size) (mem' : Memory size') : Prop where
  byte_eq : ∀ a < Layout.displayStart size, mem'.byte a = mem.byte a
  display_eq : mem'.display = mem.display

/-- What is written below the display is not shown. -/
theorem display_write (mem : Memory size) {start : Nat} {bs : List UInt8}
    (h : start + bs.length ≤ Layout.displayStart size) :
    (mem.write start bs).display = mem.display := by
  induction bs generalizing mem start with
  | nil => rfl
  | cons b bs ih =>
    rw [List.length_cons] at h
    rw [write, ih _ (by omega), set_of_lt mem b (by omega)]

namespace Agree

variable {mem : Memory size} {mem' : Memory size'} {start : Nat}

theorem initial (hle : size ≤ size') (program : Array UInt8) :
    (Memory.initial size program).Agree (Memory.initial size' program) where
  byte_eq := by
    intro a ha
    have ha' := Nat.lt_of_lt_of_le ha (Layout.displayStart_mono hle)
    rw [byte_of_low _ ha, byte_of_low _ ha']
    simp only [Memory.initial, Vector.getElem_ofFn]
  display_eq := rfl

theorem read (h : mem.Agree mem') {count : Nat}
    (hc : start + count ≤ Layout.displayStart size) :
    mem'.read start count = mem.read start count := by
  rw [Memory.read, Memory.read]
  refine List.map_congr_left fun a ha => h.byte_eq a ?_
  have := (List.mem_range'_1.mp ha).2
  omega

theorem write (h : mem.Agree mem') (hle : size ≤ size') {bs : List UInt8}
    (hc : start + bs.length ≤ Layout.displayStart size) :
    (mem.write start bs).Agree (mem'.write start bs) where
  byte_eq := by
    intro a ha
    have hs : a < size := Nat.lt_of_lt_of_le ha (Layout.displayStart_le size)
    have hs' : a < size' := Nat.lt_of_lt_of_le hs hle
    have hb := h.byte_eq a ha
    rw [byte_of_lt _ hs, byte_of_lt _ hs'] at hb
    rw [byte_of_lt _ hs, byte_of_lt _ hs', getElem_write, getElem_write, hb]
  display_eq := by
    have hc' := Nat.le_trans hc (Layout.displayStart_mono hle)
    rw [display_write _ hc, display_write _ hc', h.display_eq]

/-- Where nothing changes below the displays, it is enough that they show the same. -/
theorem of_low (h : mem.Agree mem') (hle : size ≤ size') {new : Memory size} {new' : Memory size'}
    (hl : new.low = mem.low) (hl' : new'.low = mem'.low) (hd : new'.display = new.display) :
    new.Agree new' where
  byte_eq := by
    intro a ha
    have ha' := Nat.lt_of_lt_of_le ha (Layout.displayStart_mono hle)
    rw [byte_eq_of_low hl ha, byte_eq_of_low hl' ha', h.byte_eq a ha]
  display_eq := hd

end Agree

end Memory

/-! ## Machines with memories of two sizes -/

namespace Machine

/-- The machine with a memory of another size. -/
def resized (m : Machine size) (mem : Memory size') : Machine size' where
  registers := m.registers
  index := m.index
  pc := m.pc
  memory := mem
  stack := m.stack
  delay := m.delay
  sound := m.sound
  awaiting := m.awaiting
  programLength := m.programLength

/-- A machine that does not find out where its memory ends. -/
structure Confined (m : Machine size) : Prop where
  /-- The word that is read ends below the display. -/
  word_le : m.pc.toNat + 2 ≤ Layout.displayStart size
  /-- So does what the instruction reads or writes through the index register. -/
  span_le : ∀ {word i n}, m.next = .ok (word, i) → i.span? = some n →
    m.index.toNat + n ≤ Layout.displayStart size
  /-- A sum in the index register is the address of a byte. -/
  sum_lt : ∀ {word x}, m.next = .ok (word, .addIndex x) → m.index.toNat + (m.v x).toNat < size

/-- What an instruction of this machine does to a memory, be it the machine's own or not. -/
def memoryAfter (m : Machine size) (mem : Memory size') : Instruction → Memory size'
  | .clear => mem.clear
  | .draw x y rows =>
    mem.draw (m.v x).toNat (m.v y).toNat (m.memory.read m.index.toNat rows.val)
  | .writeDecimal x => mem.write m.index.toNat (decimalDigits (m.v x))
  | .save x => mem.write m.index.toNat (m.registers.toList.take (x.val + 1))
  | _ => mem

variable {m : Machine size} {mem : Memory size'} {word : UInt16} {i : Instruction}

/-- It is enough to look at the one instruction that is read. -/
theorem confined_of_next (hw : m.pc.toNat + 2 ≤ Layout.displayStart size)
    (hn : m.next = .ok (word, i))
    (hs : ∀ n, i.span? = some n → m.index.toNat + n ≤ Layout.displayStart size)
    (hx : ∀ x, i = .addIndex x → m.index.toNat + (m.v x).toNat < size) : m.Confined where
  word_le := hw
  span_le := by
    intro word' i' n hn' hi
    cases hn.symm.trans hn'
    exact hs n hi
  sum_lt := by
    intro word' x hn'
    cases hn.symm.trans hn'
    exact hx x rfl

theorem memory_perform [Host σ] (m : Machine size) (h : σ) (i : Instruction) :
    (m.perform h i).1.memory = m.memoryAfter m.memory i := by
  cases i with
  | combine op x y => cases op <;> rfl
  | restore x => rw [perform, advance, restore]; rfl
  | _ => rfl

theorem fetch_resized (ha : m.memory.Agree mem) (hle : size ≤ size') (hc : m.Confined) :
    (m.resized mem).fetch = m.fetch := by
  have hw := hc.word_le
  have hs : m.pc.toNat + 2 ≤ size := Nat.le_trans hw (Layout.displayStart_le size)
  have hs' : (m.resized mem).pc.toNat + 2 ≤ size' := Nat.le_trans hs hle
  have h0 : mem.byte m.pc.toNat = m.memory.byte m.pc.toNat := ha.byte_eq _ (by omega)
  have h1 : mem.byte (m.pc.toNat + 1) = m.memory.byte (m.pc.toNat + 1) := ha.byte_eq _ (by omega)
  rw [fetch_of_le hs, fetch_of_le hs', ← h0, ← h1]
  rfl

theorem next_resized (ha : m.memory.Agree mem) (hle : size ≤ size') (hc : m.Confined) :
    (m.resized mem).next = m.next := by
  rw [next, next, fetch_resized ha hle hc]

/-- What an instruction reaches for is there in both memories. -/
theorem obstacle?_resized (hle : size ≤ size') (hc : m.Confined) (hn : m.next = .ok (word, i)) :
    (m.resized mem).obstacle? i = m.obstacle? i := by
  cases hs : i.span? with
  | none => cases i <;> first | rfl | cases hs
  | some n =>
    have h : m.index.toNat + n ≤ size :=
      Nat.le_trans (hc.span_le hn hs) (Layout.displayStart_le size)
    rw [obstacle?_of_span? _ hs, obstacle?_of_span? _ hs, Memory.overrun?_eq_none_iff.mpr h]
    exact Memory.overrun?_eq_none_iff.mpr (Nat.le_trans h hle)

/-- An addition that stays within the smaller memory sets the same flag in both. -/
theorem addIndex_resized {x : Register} (hle : size ≤ size')
    (hc : m.index.toNat + (m.v x).toNat < size) :
    (m.resized mem).addIndex x = (m.addIndex x).resized mem := by
  -- a sum below 65536 sets neither flag, and any other is beyond the addresses of both
  have hf : decide (min size' 65536 ≤ m.index.toNat + (m.v x).toNat)
      = decide (min size 65536 ≤ m.index.toNat + (m.v x).toNat) :=
    decide_eq_decide.mpr (by omega)
  rw [addIndex_eq, addIndex_eq, ← hf]
  rfl

theorem drawSprite_resized {x y : Register} {rows : Nibble} (ha : m.memory.Agree mem)
    (hc : m.index.toNat + rows.val ≤ Layout.displayStart size) :
    (m.resized mem).drawSprite x y rows
      = (m.drawSprite x y rows).resized
          (mem.draw (m.v x).toNat (m.v y).toNat (m.memory.read m.index.toNat rows.val)) := by
  have hr := ha.read hc
  have hd := ha.display_eq
  rw [← hr, drawSprite, drawSprite, ← hr, ← hd]
  rfl

theorem restore_resized {x : Register} (ha : m.memory.Agree mem)
    (hc : m.index.toNat + (x.val + 1) ≤ Layout.displayStart size) :
    (m.resized mem).restore x = (m.restore x).resized mem := by
  have hb : (fun k => if k ≤ x then mem.byte (m.index.toNat + k.val) else m.v k)
      = fun k => if k ≤ x then m.memory.byte (m.index.toNat + k.val) else m.v k := by
    funext k
    by_cases hk : k ≤ x
    · have hk' : k.val ≤ x.val := hk
      rw [if_pos hk, if_pos hk, ha.byte_eq _ (by omega)]
    · rw [if_neg hk, if_neg hk]
  rw [restore, restore, ← hb]
  rfl

theorem advance_resized (m : Machine size) (mem : Memory size') :
    (m.resized mem).advance = m.advance.resized mem := rfl

/-- **An instruction does the same with a larger memory.** -/
theorem perform_resized [Host σ] (ha : m.memory.Agree mem) (hle : size ≤ size') (hc : m.Confined)
    (hn : m.next = .ok (word, i)) (h : σ) :
    (m.resized mem).perform h i
      = ((m.perform h i).1.resized (m.memoryAfter mem i), (m.perform h i).2) := by
  cases i with
  | combine op x y => cases op <;> rfl
  | draw x y rows =>
    rw [perform, perform, drawSprite_resized ha (hc.span_le hn rfl), advance_resized]
    rfl
  | addIndex x =>
    rw [perform, perform, addIndex_resized hle (hc.sum_lt hn), advance_resized]
    rfl
  | restore x =>
    rw [perform, perform, restore_resized ha (hc.span_le hn rfl), advance_resized]
    rfl
  | _ => rfl

theorem agree_memoryAfter (ha : m.memory.Agree mem) (hle : size ≤ size') (hc : m.Confined)
    (hn : m.next = .ok (word, i)) :
    (m.memoryAfter m.memory i).Agree (m.memoryAfter mem i) := by
  cases i with
  | clear => exact ha.of_low hle rfl rfl rfl
  | draw x y rows =>
    refine ha.of_low hle rfl rfl ?_
    rw [memoryAfter, memoryAfter, Memory.draw, Memory.draw, ha.display_eq]
  | writeDecimal x => exact ha.write hle (hc.span_le hn rfl)
  | save x =>
    have hl : (m.registers.toList.take (x.val + 1)).length = x.val + 1 := by
      rw [List.length_take, Vector.length_toList]
      omega
    exact ha.write hle (by rw [hl]; exact hc.span_le hn rfl)
  | _ => exact ha

/-- **So does a step, and the memories still agree.** -/
theorem step_resized [Host σ] (ha : m.memory.Agree mem) (hle : size ≤ size')
    (hc : m.awaiting = none → m.Confined) (h : σ) :
    ∃ new, (m.step h).machine.memory.Agree new
      ∧ (m.resized mem).step h
        = ⟨(m.step h).toAccount, (m.step h).machine.resized new, (m.step h).host⟩ := by
  have ht : m.TwinSteps (m.resized mem) h :=
    twinSteps h rfl (fun hx => next_resized ha hle (hc hx))
      fun hx hn => obstacle?_resized hle (hc hx) hn
  cases ht with
  | still _ hs hs' | keyStored hs hs' =>
    rw [hs, hs']
    exact ⟨mem, ha, rfl⟩
  | @executed word i hx hn hs hs' =>
    rw [hs, hs', perform_resized ha hle (hc hx) hn]
    refine ⟨m.memoryAfter mem i, ?_, rfl⟩
    rw [memory_perform]
    exact agree_memoryAfter ha hle (hc hx) hn

end Machine

/-! ## Sessions -/

/-- A session with a machine that differs in its memory, where the two agree. -/
def Session.Resized (s : Session size σ) (t : Session size' σ) : Prop :=
  ∃ mem, s.machine.memory.Agree mem ∧ t = ⟨s.machine.resized mem, s.host⟩

/-- In a step, a machine that reads an instruction is confined. -/
def Moment.Confined (x : Moment size σ) : Prop :=
  match x.move with
  | .step => x.before.machine.awaiting = none → x.before.machine.Confined
  | _ => True

theorem lockstep_resized [Host σ] (hle : size ≤ size') :
    Lockstep (fun (s : Session size σ) (t : Session size' σ) => s.Resized t) Moment.Confined where
  pc_eq := by
    rintro s t ⟨mem, -, rfl⟩
    rfl
  programEnd_eq := by
    rintro s t ⟨mem, -, rfl⟩
    rfl
  event_eq := by
    rintro s t ⟨mem, ha, rfl⟩ hc
    obtain ⟨new, -, hs⟩ := Machine.step_resized ha hle hc s.host
    show ((s.machine.resized mem).step s.host).event = _
    rw [hs]
    rfl
  report_eq := by
    rintro s t ⟨mem, -, rfl⟩
    rfl
  after := by
    rintro s t mv ⟨mem, ha, rfl⟩ hc
    cases mv with
    | tick => exact ⟨mem, ha, rfl⟩
    | alter h => exact ⟨mem, ha, rfl⟩
    | step =>
      obtain ⟨new, hnew, hs⟩ := Machine.step_resized ha hle hc s.host
      refine ⟨new, hnew, ?_⟩
      show (⟨((s.machine.resized mem).step s.host).machine,
        ((s.machine.resized mem).step s.host).host⟩ : Session size' σ) = _
      rw [hs]
      rfl

/-- All that the sessions can have in common is the same. -/
structure Session.Alike (s : Session size σ) (t : Session size' σ) : Prop where
  registers_eq : t.machine.registers = s.machine.registers
  index_eq : t.machine.index = s.machine.index
  pc_eq : t.machine.pc = s.machine.pc
  stack_eq : t.machine.stack = s.machine.stack
  delay_eq : t.machine.delay = s.machine.delay
  sound_eq : t.machine.sound = s.machine.sound
  awaiting_eq : t.machine.awaiting = s.machine.awaiting
  programLength_eq : t.machine.programLength = s.machine.programLength
  host_eq : t.host = s.host
  byte_eq : ∀ a < size - 256, t.machine.memory.byte a = s.machine.memory.byte a
  pixel_eq : ∀ x y, t.machine.display.pixel x y = s.machine.display.pixel x y

theorem Session.Resized.alike {s : Session size σ} {t : Session size' σ} (h : s.Resized t) :
    s.Alike t := by
  obtain ⟨mem, ha, rfl⟩ := h
  refine ⟨rfl, rfl, rfl, rfl, rfl, rfl, rfl, rfl, rfl, fun a hlt => ?_, fun x y => ?_⟩
  · exact ha.byte_eq a (by rwa [Layout.displayStart_eq])
  · exact congrArg (Display.pixel · x y) ha.display_eq

/--
**A program that is confined in some memory does the same in any larger one.**

It is accepted there too. Whatever is asked of both machines, with the same host to
answer them, they reply the same as long as the first is confined in each step that is
taken for it, and nothing but what the smaller memory has no room for can be told apart.
-/
theorem alike_with_larger_memory [Host σ] (hle : size ≤ size') {program : Array UInt8}
    {s : Session size σ} (hs : Machine.load size program = .ok s.machine) :
    ∃ t : Session size' σ, Machine.load size' program = .ok t.machine ∧ t.host = s.host
      ∧ ∀ rs : List (Request σ), (∀ x ∈ s.trail rs, x.Confined) →
        t.replies rs = s.replies rs ∧ (s.requests rs).Alike (t.requests rs) := by
  obtain ⟨hc, hm⟩ := Machine.load_eq_ok_iff.mp hs
  have hc' : program.size ≤ size' - 864 := Nat.le_trans hc (Nat.sub_le_sub_right hle 864)
  let t : Session size' σ := ⟨.fresh size' program, s.host⟩
  have hr : s.Resized t := by
    obtain ⟨m, h⟩ := s
    obtain rfl := hm
    exact ⟨.initial size' program, .initial hle program, rfl⟩
  refine ⟨t, Machine.load_eq_ok_iff.mpr ⟨hc', rfl⟩, rfl, fun rs hx => ?_⟩
  obtain ⟨h1, h2⟩ := (lockstep_resized hle).requests rs hr hx
  exact ⟨h1, h2.alike⟩

/-- A program that draws a glyph draws it in a thousand bytes of memory as in seventy thousand. -/
theorem alike_with_larger_memory_glyph :
    ∃ (s : Session 1000 Headless) (t : Session 70000 Headless),
      Machine.load 1000 #[0x60, 0x03, 0xF0, 0x29, 0xD0, 0x05] = .ok s.machine
        ∧ Machine.load 70000 #[0x60, 0x03, 0xF0, 0x29, 0xD0, 0x05] = .ok t.machine
        ∧ (∀ x ∈ s.trail [.move .step, .move .step, .move .step, .move .tick], x.Confined)
        ∧ (s.requests [.move .step, .move .step, .move .step, .move .tick]).Alike
            (t.requests [.move .step, .move .step, .move .step, .move .tick]) := by
  have hd : Layout.displayStart 1000 = 744 := Layout.displayStart_eq _
  obtain ⟨s, hm, h0⟩ := Session.exists_atWord 1000
    #[0x60, 0x03, 0xF0, 0x29, 0xD0, 0x05] Headless.mk (by decide)
  have n0 := h0.next (i := .set 0 3) (by omega) (by decide) rfl
  obtain ⟨-, -, h1⟩ := Session.step_of_isStraight (i := .set 0 3) h0 (by omega) (by decide) rfl rfl
  have n1 := h1.next (i := .pointGlyph 0) (by omega) (by decide) rfl
  obtain ⟨-, a1, h2⟩ := Session.step_of_isStraight (i := .pointGlyph 0) h1 (by omega) (by decide)
    rfl rfl
  have n2 := h2.next (i := .draw 0 0 5) (by omega) (by decide) rfl
  have hindex : ((s.after .step).after .step).machine.index.toNat + 5 ≤ 80 := by
    rw [a1]
    exact Font.glyphAddress_add_le _
  have c0 : s.machine.Confined :=
    Machine.confined_of_next (by rw [h0.pc_toNat (by decide)]; omega) n0 nofun nofun
  have c1 : (s.after .step).machine.Confined :=
    Machine.confined_of_next (by rw [h1.pc_toNat (by decide)]; omega) n1 nofun nofun
  have c2 : ((s.after .step).after .step).machine.Confined := by
    refine Machine.confined_of_next (by rw [h2.pc_toNat (by decide)]; omega) n2 ?_ nofun
    intro n hn
    cases hn
    exact Nat.le_trans hindex (by omega)
  have hx : ∀ x ∈ s.trail [.move .step, .move .step, .move .step, .move .tick], x.Confined :=
    List.forall_mem_cons.mpr ⟨fun _ => c0, List.forall_mem_cons.mpr ⟨fun _ => c1,
      List.forall_mem_cons.mpr ⟨fun _ => c2, List.forall_mem_singleton.mpr trivial⟩⟩⟩
  obtain ⟨t, ht, -, h⟩ := alike_with_larger_memory (by decide : 1000 ≤ 70000) hm
  exact ⟨s, t, hm, ht, hx, (h _ hx).2⟩

end ChipEight
