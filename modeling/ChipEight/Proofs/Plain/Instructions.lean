import ChipEight.Proofs.Plain.Machine
import ChipEight.Proofs.Effects

/-!
# Instructions on plain data

`Machine.plain` forgets what the types of a machine know, and `execute_plain` says
that nothing is lost by it: on what is left of a machine, every instruction does what
it does on the machine itself, and all of its accesses are covered.

The reasons are facts about operands. A digit cut out of a word is below sixteen, and
it is the register that the instruction names (`digitX_of_vx?`), so it can be used as
it is.
-/

namespace ChipEight

namespace Plain

/-! ## Words -/

/-- A digit is below sixteen, wherever it stands. -/
theorem toNat_digit (w : UInt16) {shift : UInt16} (h : shift.toNat < 16) :
    (digit w shift).toNat = w.toNat >>> shift.toNat % 16 := by
  have hd : (w >>> shift &&& 0x000F).toNat = w.toNat >>> shift.toNat % 16 := by
    rw [UInt16.toNat_and, UInt16.toNat_shiftRight, Nat.mod_eq_of_lt h]
    exact Nat.and_two_pow_sub_one_eq_mod _ 4
  rw [digit, UInt16.toNat_toUInt8, hd]
  omega

theorem toNat_digitX (w : UInt16) : (digitX w).toNat = w.toNat / 256 % 16 := by
  rw [digitX, toNat_digit w (by decide), Nat.shiftRight_eq_div_pow]
  rfl

theorem toNat_digitY (w : UInt16) : (digitY w).toNat = w.toNat / 16 % 16 := by
  rw [digitY, toNat_digit w (by decide), Nat.shiftRight_eq_div_pow]
  rfl

theorem toNat_lastDigit (w : UInt16) : (lastDigit w).toNat = w.toNat % 16 :=
  toNat_digit w (by decide)

theorem toNat_lowByte (w : UInt16) : (lowByte w).toNat = w.toNat % 256 := by
  have h : (w &&& 0x00FF).toNat = w.toNat % 256 := by
    rw [UInt16.toNat_and]
    exact Nat.and_two_pow_sub_one_eq_mod _ 8
  rw [lowByte, UInt16.toNat_toUInt8, h]
  omega

theorem toNat_address (w : UInt16) : (address w).toNat = w.toNat % 4096 := by
  rw [address, UInt16.toNat_and]
  exact Nat.and_two_pow_sub_one_eq_mod _ 12

theorem toNat_lowNibble (a : UInt8) : (a &&& 0x0F).toNat = a.toNat % 16 := by
  rw [UInt8.toNat_and]
  exact Nat.and_two_pow_sub_one_eq_mod _ 4

end Plain

/-! ## Operands

What an instruction names, so far as it does: a register, another one, a byte, an address.
-/

namespace Instruction

def vx? : Instruction → Option Register
  | .skipIfByte x _ | .skipUnlessByte x _ | .skipIfEqual x _ | .set x _ | .increase x _
  | .combine _ x _ | .skipUnlessEqual x _ | .random x _ | .draw x _ _ | .skipIfKey x
  | .skipUnlessKey x | .getDelay x | .awaitKey x | .setDelay x | .setSound x | .addIndex x
  | .pointGlyph x | .writeDecimal x | .save x | .restore x => some x
  | _ => none

def vy? : Instruction → Option Register
  | .skipIfEqual _ y | .combine _ _ y | .skipUnlessEqual _ y | .draw _ y _ => some y
  | _ => none

def byte? : Instruction → Option UInt8
  | .skipIfByte _ n | .skipUnlessByte _ n | .set _ n | .increase _ n | .random _ n => some n
  | _ => none

def target? : Instruction → Option Address
  | .jump t | .call t | .setIndex t | .jumpOffset t => some t
  | _ => none

variable {i : Instruction} {w : UInt16}

theorem toNat_word (hw : i.toWord = w) : w.toNat = i.code := by rw [← hw, toNat_toWord]

theorem digitX_of_vx? {x : Register} (hw : i.toWord = w) (h : i.vx? = some x) :
    (Plain.digitX w).toNat = x.val := by
  rw [Plain.toNat_digitX, toNat_word hw]
  cases i with
  | skipIfByte x n | skipUnlessByte x n | set x n | increase x n | random x n =>
    cases h
    have := n.toNat_lt
    simp only [code]
    omega
  | combine op x y =>
    cases h
    have : op.digit < 16 := by cases op <;> decide
    simp only [code]
    omega
  | _ => cases h <;> simp only [code] <;> omega

theorem digitY_of_vy? {y : Register} (hw : i.toWord = w) (h : i.vy? = some y) :
    (Plain.digitY w).toNat = y.val := by
  rw [Plain.toNat_digitY, toNat_word hw]
  cases i with
  | combine op x y =>
    cases h
    have : op.digit < 16 := by cases op <;> decide
    simp only [code]
    omega
  | _ => cases h <;> simp only [code] <;> omega

theorem lowByte_of_byte? {n : UInt8} (hw : i.toWord = w) (h : i.byte? = some n) :
    Plain.lowByte w = n := by
  refine UInt8.toNat_inj.mp ?_
  rw [Plain.toNat_lowByte, toNat_word hw]
  have := n.toNat_lt
  cases i with
  | _ => cases h <;> simp only [code] <;> omega

theorem address_of_target? {t : Address} (hw : i.toWord = w) (h : i.target? = some t) :
    Plain.address w = UInt16.ofNat t.val := by
  refine UInt16.toNat_inj.mp ?_
  rw [Plain.toNat_address, toNat_word hw, UInt16.toNat_ofNat']
  cases i with
  | _ => cases h <;> simp only [code] <;> omega

theorem lastDigit_of_draw {x y : Register} {rows : Nibble} (hw : (draw x y rows).toWord = w) :
    (Plain.lastDigit w).toNat = rows.val := by
  rw [Plain.toNat_lastDigit, toNat_word hw, code]
  omega

end Instruction

open Checked

variable {limit size : Nat} {σ : Type} [Host σ]

/-! ## Machines on plain data -/

namespace Machine

/-- The same machine on plain data. -/
def plain (m : Machine size) : Plain where
  registers := m.registers.toList
  index := m.index
  pc := m.pc
  memory := m.memory.bytes
  stack := m.stack
  delay := m.delay.value
  sound := m.sound.value
  awaiting := m.awaiting.map fun x => UInt8.ofNat x.val
  programLength := m.programLength

/-- What an instruction comes to on plain data: the error of what stands in its way and nothing
else, or what it leaves behind. -/
def result (m : Machine size) (h : σ) (i : Instruction) :
    Except Error Unit × Plain × σ × List String :=
  match m.obstacle? i with
  | some e => (.error e, m.plain, h, [])
  | none =>
    (.ok (), (m.perform h i).1.plain, (m.perform h i).2,
      ((m.perform h i).1.aftermath i).map Record.line)

theorem plain_index (m : Machine size) : m.plain.index = m.index := rfl

theorem plain_pc (m : Machine size) : m.plain.pc = m.pc := rfl

theorem plain_stack (m : Machine size) : m.plain.stack = m.stack := rfl

/-- What comes from memory stands before the registers that stay. -/
theorem toList_restore (m : Machine size) (x : Register) :
    (m.restore x).registers.toList
      = m.memory.read m.index.toNat (x.val + 1) ++ m.registers.toList.drop (x.val + 1) := by
  refine List.ext_getElem ?_ fun k hk _ => ?_
  · rw [List.length_append, Memory.length_read, List.length_drop, Vector.length_toList,
      Vector.length_toList]
    omega
  · rw [Vector.length_toList] at hk
    have he : (m.restore x).registers[k]
        = if k ≤ x.val then m.memory.byte (m.index.toNat + k) else m.registers[k] := by
      rw [restore, Vector.getElem_ofFn]
      rfl
    rw [Vector.getElem_toList, he]
    by_cases hx : k ≤ x.val
    · rw [if_pos hx, List.getElem_append_left (by rw [Memory.length_read]; omega)]
      simp [Memory.read]
    · have hs : x.val + 1 + (k - (x.val + 1)) = k := by omega
      rw [if_neg hx, List.getElem_append_right (by rw [Memory.length_read]; omega)]
      simp only [List.getElem_drop, Memory.length_read, Vector.getElem_toList, hs]

theorem length_plain_registers (m : Machine size) : m.plain.registers.length = 16 :=
  Vector.length_toList

end Machine

namespace Plain

variable (m : Machine size) {x : Register} {b : UInt8}

/-! ## Registers and memory -/

theorem get_plain (hx : b.toNat = x.val) : m.plain.get b = .ok (m.v x) := by
  rw [Plain.get, hx]
  exact (element_of_lt (by rw [m.length_plain_registers]; exact x.isLt)).trans
    (congrArg Except.ok (Vector.getElem_toList _))

theorem put_plain (hx : b.toNat = x.val) (c : UInt8) :
    m.plain.put b c = .ok (m.put x c).plain := by
  rw [Plain.put, hx, replace_of_lt (by rw [m.length_plain_registers]; exact x.isLt),
    ok_bind]
  simp only [Machine.plain, Machine.put, Vector.toList_set]
  rfl

theorem screen_plain (hsize : 256 ≤ size) :
    m.plain.screen size = .ok m.display.bytes.toList := by
  have hl : Layout.displayStart size + 256 = size := by rw [Layout.displayStart_eq]; omega
  have hs : stretch m.memory.bytes (Layout.displayStart size) size
      = .ok m.display.bytes.toList := by
    have hle : Layout.displayStart size + 256 ≤ m.memory.bytes.length := by
      rw [Memory.length_bytes _ hsize]; omega
    have hs := stretch_of_le hle
    rwa [hl, Memory.drop_bytes, List.take_of_length_le (Nat.le_of_eq Vector.length_toList)] at hs
  rw [Plain.screen, Machine.plain, hs, ok_bind, if_pos Vector.length_toList]
  rfl

theorem putScreen_plain (hsize : 256 ≤ size) (d : Display) :
    m.plain.putScreen size d.bytes.toList
      = .ok ({ m with memory := { m.memory with display := d } } : Machine size).plain := by
  have hl : Layout.displayStart size + 256 = size := by rw [Layout.displayStart_eq]; omega
  have hs : copy m.memory.bytes (Layout.displayStart size) size d.bytes.toList
      = .ok (m.memory.low.toList ++ d.bytes.toList) := by
    have hle : Layout.displayStart size + d.bytes.toList.length ≤ m.memory.bytes.length := by
      rw [Memory.length_bytes _ hsize, Vector.length_toList]; omega
    have hs := copy_of_le hle
    rwa [Vector.length_toList, hl, Memory.take_bytes,
      List.drop_eq_nil_of_le (Nat.le_of_eq (Memory.length_bytes _ hsize)), List.append_nil] at hs
  rw [Plain.putScreen, Machine.plain, hs, ok_bind]
  rfl

variable {start : UInt16} {n : Nat}

/-- What lies within memory has a range, and the rest has an error. -/
theorem range_eq (hlimit : 65552 ≤ limit) (hn : n ≤ 16) :
    range limit size start n =
      match Memory.overrun? size start n with
      | some e => .ok (.error e)
      | none => .ok (.ok (start.toNat, start.toNat + n)) := by
  have := start.toNat_lt
  rw [range, add_of_lt (by omega), ok_bind, Memory.overrun?]
  split
  · rfl
  · rfl

theorem read_plain (hsize : 256 ≤ size) (h : Memory.overrun? size start n = none) :
    stretch m.plain.memory start.toNat (start.toNat + n) = .ok (m.memory.read start.toNat n) := by
  have hle := Memory.overrun?_eq_none_iff.mp h
  rw [Memory.read_eq _ hsize hle]
  exact stretch_of_le (by rw [Machine.plain, Memory.length_bytes _ hsize]; exact hle)

theorem write_plain (hsize : 256 ≤ size) {bs : List UInt8} (hn : bs.length = n)
    (h : Memory.overrun? size start n = none) :
    copy m.plain.memory start.toNat (start.toNat + n) bs
      = .ok (m.memory.write start.toNat bs).bytes := by
  have hle := Memory.overrun?_eq_none_iff.mp h
  subst hn
  rw [Memory.bytes_write _ hsize hle]
  exact copy_of_le (by rw [Machine.plain, Memory.length_bytes _ hsize]; exact hle)

theorem fetch_plain (hlimit : 65552 ≤ limit) (hsize : 256 ≤ size) :
    m.plain.fetch limit size = .ok m.fetch := by
  rw [fetch, range_eq hlimit (by omega), Machine.fetch, m.plain_pc]
  cases h : Memory.overrun? size m.pc 2 with
  | some e => rfl
  | none =>
    dsimp only [andThen, ok_bind]
    rw [read_plain m hsize h]
    rfl

/-! ## Keys -/

theorem key_plain (keypad : Keypad) (a : UInt8) :
    element keypad.down.toList (a &&& 0x0F).toNat = .ok (keypad.isDown (Register.ofByte a)) := by
  have ha : (a &&& 0x0F).toNat = (Register.ofByte a).val := toNat_lowNibble a
  rw [ha, element_of_lt (by rw [Vector.length_toList]; exact (Register.ofByte a).isLt),
    Vector.getElem_toList]
  rfl

/-! ## Instructions one by one -/

omit [Host σ] in
/-- What goes on with the next instruction. -/
theorem next_plain (g : σ) :
    (do pure (settle (← (pure (.ok .next, m.plain, g) :
        Checked (Except Error Flow × Plain × σ)))))
      = Except.ok (Except.ok (), m.advance.plain, g, []) := rfl

omit [Host σ] in
/-- What goes on with the next instruction, or leaves it out. -/
theorem skipIf_plain (c : Bool) (g : σ) :
    (do pure (settle (← (pure (.ok (.skipIf c), m.plain, g) :
        Checked (Except Error Flow × Plain × σ)))))
      = Except.ok (Except.ok (), (m.skipIf c).plain, g, []) := by
  cases c <;> rfl

/-- A wait begins with the same line. -/
theorem waitForKey_plain (x : Register) :
    m.plain.follow (.waitForKey (UInt8.ofNat x.val))
      = (({ m with awaiting := some x } : Machine size).plain,
          [Record.line (.waiting m.pc x)]) := by
  have hx : (UInt8.ofNat x.val).toNat = x.val := by rw [UInt8.toNat_ofNat']; omega
  rw [follow, hx]
  rfl

variable {w : UInt16} {i : Instruction} {y : Register} (h : σ)

theorem combine_plain {op : Operation} (hw : (Instruction.combine op x y).toWord = w) :
    m.plain.apply limit size h w (.combine op x y) = .ok (m.result h (.combine op x y)) := by
  have hr : m.result h (.combine op x y)
      = (.ok (), (m.combine op x y).advance.plain, h, []) := rfl
  rw [apply, execute, get_plain m (Instruction.digitX_of_vx? hw rfl), ok_bind,
    get_plain m (Instruction.digitY_of_vy? hw rfl), ok_bind,
    put_plain m (Instruction.digitX_of_vx? hw rfl), ok_bind, hr, Machine.combine]
  cases op.flag? (m.v x) (m.v y) with
  | none => rfl
  | some c =>
    dsimp only
    rw [put_plain _ (x := .flag) rfl, ok_bind]
    rfl

/-- An address and a byte have a sum of sixteen bits. -/
theorem jumpOffset_plain {t : Address} (hw : (Instruction.jumpOffset t).toWord = w) :
    m.plain.apply limit size h w (.jumpOffset t) = .ok (m.result h (.jumpOffset t)) := by
  have ht : (UInt16.ofNat t.val).toNat = t.val := by rw [UInt16.toNat_ofNat']; omega
  have hv := (m.v .offset).toNat_lt
  rw [apply, execute, get_plain m (x := .offset) rfl, ok_bind,
    Instruction.address_of_target? hw rfl, ht, add_of_lt (by omega), ok_bind]
  rfl

theorem addIndex_plain (hw : (Instruction.addIndex x).toWord = w) :
    m.plain.apply limit size h w (.addIndex x) = .ok (m.result h (.addIndex x)) := by
  have hp (a : UInt16) (c : UInt8) :
      Plain.put { m.plain with index := a } 15 c
        = .ok (Machine.put { m with index := a } .flag c).plain :=
    put_plain { m with index := a } rfl c
  rw [apply, execute, get_plain m (Instruction.digitX_of_vx? hw rfl), ok_bind]
  dsimp only
  rw [hp, ok_bind]
  rfl

theorem pointGlyph_plain (hlimit : 65552 ≤ limit) (hw : (Instruction.pointGlyph x).toWord = w) :
    m.plain.apply limit size h w (.pointGlyph x) = .ok (m.result h (.pointGlyph x)) := by
  have hl : (m.v x).toNat % 16 * Font.glyphHeight < limit := by rw [Font.glyphHeight]; omega
  have hg : UInt16.ofNat (0 + (m.v x).toNat % 16 * Font.glyphHeight)
      = Font.glyphAddress (m.v x) := by
    rw [Nat.zero_add, Nat.mul_comm]
    rfl
  rw [apply, execute, get_plain m (Instruction.digitX_of_vx? hw rfl), ok_bind, toNat_lowNibble,
    mul_of_lt hl, ok_bind, add_of_lt (by omega), ok_bind, hg]
  rfl

/-! ## Instructions that reach memory -/

/-- The range is looked for first, and there is one exactly where nothing stands in the way. -/
theorem reach_plain (hlimit : 65552 ≤ limit) (hn : n ≤ 16) (hi : i.span? = some n)
    {f : Nat → Nat → Checked (Except Error Flow × Plain × σ)}
    (hf : Memory.overrun? size m.index n = none →
      (do pure (settle (← f m.index.toNat (m.index.toNat + n))))
        = Except.ok (Except.ok (), (m.perform h i).1.plain, (m.perform h i).2,
            ((m.perform h i).1.aftermath i).map Record.line)) :
    (do pure (settle (← m.plain.reach limit size h n f))) = .ok (m.result h i) := by
  rw [reach, m.plain_index, range_eq hlimit hn, Machine.result, m.obstacle?_of_span? hi]
  cases hr : Memory.overrun? size m.index n with
  | some e => rfl
  | none => exact hf hr

/-- As many bytes of the buffer are used as there are rows, which are fifteen at most. -/
theorem draw_plain (hlimit : 65552 ≤ limit) (hsize : 256 ≤ size) {rows : Nibble}
    (hw : (Instruction.draw x y rows).toWord = w) :
    m.plain.apply limit size h w (.draw x y rows) = .ok (m.result h (.draw x y rows)) := by
  have hbuffer : stretch (List.replicate 15 (0 : UInt8)) 0 rows.val
      = .ok (List.replicate rows.val 0) := by
    rw [stretch_zero (by rw [List.length_replicate]; omega), List.take_replicate,
      Nat.min_eq_left (by omega)]
  have hl : (m.memory.read m.index.toNat rows.val).length = rows.val := Memory.length_read ..
  have hcopy : copy (List.replicate rows.val (0 : UInt8)) 0 rows.val
      (m.memory.read m.index.toNat rows.val) = .ok (m.memory.read m.index.toNat rows.val) := by
    rw [copy_zero hl (Nat.le_of_eq List.length_replicate.symm), List.drop_replicate,
      Nat.sub_self, List.replicate_zero, List.append_nil]
  rw [apply, execute, Instruction.lastDigit_of_draw hw]
  refine reach_plain m h hlimit (by omega) rfl fun hf => ?_
  rw [Nat.add_sub_cancel_left, hbuffer, ok_bind, read_plain m hsize hf, ok_bind,
    List.length_replicate, hcopy, ok_bind, get_plain m (Instruction.digitX_of_vx? hw rfl), ok_bind,
    get_plain m (Instruction.digitY_of_vy? hw rfl), ok_bind, screen_plain m hsize, ok_bind,
    Screen.draw_toList (by omega), ok_bind]
  dsimp only
  rw [putScreen_plain m hsize, ok_bind, put_plain _ (x := .flag) rfl, ok_bind]
  rfl

theorem writeDecimal_plain (hlimit : 65552 ≤ limit) (hsize : 256 ≤ size)
    (hw : (Instruction.writeDecimal x).toWord = w) :
    m.plain.apply limit size h w (.writeDecimal x) = .ok (m.result h (.writeDecimal x)) := by
  have hl : (decimalDigits (m.v x)).length = 3 := rfl
  rw [apply, execute]
  refine reach_plain m h hlimit (by omega) rfl fun hf => ?_
  rw [get_plain m (Instruction.digitX_of_vx? hw rfl), ok_bind, write_plain m hsize hl hf, ok_bind]
  rfl

theorem save_plain (hlimit : 65552 ≤ limit) (hsize : 256 ≤ size)
    (hw : (Instruction.save x).toWord = w) :
    m.plain.apply limit size h w (.save x) = .ok (m.result h (.save x)) := by
  have hr : stretch m.plain.registers 0 (x.val + 1) = .ok (m.registers.toList.take (x.val + 1)) :=
    stretch_zero (by rw [m.length_plain_registers]; omega)
  have hl : (m.registers.toList.take (x.val + 1)).length = x.val + 1 := by
    rw [List.length_take, Vector.length_toList]; omega
  rw [apply, execute, Instruction.digitX_of_vx? hw rfl, add_of_lt (by omega), ok_bind]
  refine reach_plain m h hlimit (by omega) rfl fun hf => ?_
  rw [hr, ok_bind, write_plain m hsize hl hf, ok_bind]
  rfl

theorem restore_plain (hlimit : 65552 ≤ limit) (hsize : 256 ≤ size)
    (hw : (Instruction.restore x).toWord = w) :
    m.plain.apply limit size h w (.restore x) = .ok (m.result h (.restore x)) := by
  have hr : copy m.plain.registers 0 (x.val + 1) (m.memory.read m.index.toNat (x.val + 1))
      = .ok (m.restore x).registers.toList := by
    rw [copy_zero (Memory.length_read ..) (by rw [m.length_plain_registers]; omega),
      m.toList_restore x]
    rfl
  rw [apply, execute, Instruction.digitX_of_vx? hw rfl, add_of_lt (by omega), ok_bind]
  refine reach_plain m h hlimit (by omega) rfl fun hf => ?_
  -- the machine is named first, or all its registers would be compared with those before
  have hm : ({ m.plain with registers := (m.restore x).registers.toList } : Plain)
      = (m.restore x).plain := by rw [Machine.plain, Machine.plain, Machine.restore]
  have hp : (m.perform h (.restore x)).1 = (m.restore x).advance := by rw [Machine.perform]
  rw [read_plain m hsize hf, ok_bind, hr, ok_bind, hm, hp]
  exact next_plain (m.restore x) h

/-! ## Every instruction -/

/-- **On plain data every instruction comes to the same.** -/
theorem apply_plain (hlimit : 65552 ≤ limit) (hsize : 256 ≤ size) (hw : i.toWord = w) :
    m.plain.apply limit size h w i = .ok (m.result h i) := by
  cases i with
  | clear =>
    have hb : (m.display.bytes.toList.map fun _ => (0 : UInt8)) = Display.blank.bytes.toList := by
      rw [List.map_const', Vector.length_toList]
      rfl
    rw [apply, execute, screen_plain m hsize, ok_bind, hb, putScreen_plain m hsize, ok_bind]
    rfl
  | ret =>
    rw [apply, execute, Machine.result, Machine.obstacle?, Machine.perform, m.plain_stack]
    cases m.stack with
    | nil => rfl
    | cons a stack => rfl
  | call t =>
    rw [apply, execute, Machine.result, Machine.obstacle?, Instruction.address_of_target? hw rfl,
      m.plain_stack, Layout.stackDepth]
    by_cases hd : m.stack.length < 12
    · rw [if_pos hd, if_pos hd]
      rfl
    · rw [if_neg hd, if_neg hd]
      rfl
  | jump t | setIndex t =>
    rw [apply, execute, Instruction.address_of_target? hw rfl]
    rfl
  | jumpOffset t => exact jumpOffset_plain m h hw
  | skipIfByte x n | skipUnlessByte x n =>
    rw [apply, execute, get_plain m (Instruction.digitX_of_vx? hw rfl), ok_bind,
      Instruction.lowByte_of_byte? hw rfl]
    exact skipIf_plain m _ _
  | skipIfEqual x y | skipUnlessEqual x y =>
    rw [apply, execute, get_plain m (Instruction.digitX_of_vx? hw rfl), ok_bind,
      get_plain m (Instruction.digitY_of_vy? hw rfl), ok_bind]
    exact skipIf_plain m _ _
  | skipIfKey x | skipUnlessKey x =>
    rw [apply, execute, get_plain m (Instruction.digitX_of_vx? hw rfl), ok_bind]
    dsimp only
    rw [key_plain, ok_bind]
    exact skipIf_plain m _ _
  | set x n =>
    rw [apply, execute, put_plain m (Instruction.digitX_of_vx? hw rfl),
      Instruction.lowByte_of_byte? hw rfl, ok_bind]
    rfl
  | increase x n =>
    rw [apply, execute, get_plain m (Instruction.digitX_of_vx? hw rfl), ok_bind,
      put_plain m (Instruction.digitX_of_vx? hw rfl), Instruction.lowByte_of_byte? hw rfl, ok_bind]
    rfl
  | combine op x y => exact combine_plain m h hw
  | random x n =>
    rw [apply, execute]
    dsimp only
    rw [put_plain m (Instruction.digitX_of_vx? hw rfl), Instruction.lowByte_of_byte? hw rfl,
      ok_bind]
    rfl
  | getDelay x =>
    rw [apply, execute, put_plain m (Instruction.digitX_of_vx? hw rfl), ok_bind]
    rfl
  | setDelay x | setSound x =>
    rw [apply, execute, get_plain m (Instruction.digitX_of_vx? hw rfl), ok_bind]
    rfl
  | awaitKey x =>
    have hx : digitX w = UInt8.ofNat x.val := by
      refine UInt8.toNat_inj.mp ?_
      rw [Instruction.digitX_of_vx? hw rfl, UInt8.toNat_ofNat']
      omega
    have hl := waitForKey_plain m x
    rw [apply, execute, hx]
    show Except.ok (Except.ok (), (m.plain.follow _).1, h, (m.plain.follow _).2) = _
    rw [hl]
    rfl
  | addIndex x => exact addIndex_plain m h hw
  | pointGlyph x => exact pointGlyph_plain m h hlimit hw
  | draw x y rows => exact draw_plain m h hlimit hsize hw
  | writeDecimal x => exact writeDecimal_plain m h hlimit hsize hw
  | save x => exact save_plain m h hlimit hsize hw
  | restore x => exact restore_plain m h hlimit hsize hw

end Plain

end ChipEight
