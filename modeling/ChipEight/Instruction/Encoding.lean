import ChipEight.Error
import ChipEight.Instruction.Basic

/-!
# Words and instructions

An instruction is one word of sixteen bits. Its first hexadecimal digit picks a family, the
last digit or the last two pick a member where a family has several, and the digits left over
are operands. `toWord` writes a word, `ofWord?` reads one, and **the two are inverse**:
`ofWord?_eq_some_iff` says that a word is read as `i` exactly when it is how `i` is written.
Hence no word has two readings, and a word is refused only if nothing is written that way.
-/

namespace ChipEight

namespace Operation

/-- The digit that picks an operation. -/
def digit : Operation → Nat
  | .move => 0x0
  | .or => 0x1
  | .and => 0x2
  | .xor => 0x3
  | .add => 0x4
  | .sub => 0x5
  | .shiftRight => 0x6
  | .subFrom => 0x7
  | .shiftLeft => 0xE

/-- The operation that a digit picks. -/
def ofDigit? : Nat → Option Operation
  | 0x0 => some .move
  | 0x1 => some .or
  | 0x2 => some .and
  | 0x3 => some .xor
  | 0x4 => some .add
  | 0x5 => some .sub
  | 0x6 => some .shiftRight
  | 0x7 => some .subFrom
  | 0xE => some .shiftLeft
  | _ => none

theorem ofDigit?_eq_some_iff {d : Nat} {op : Operation} : ofDigit? d = some op ↔ d = op.digit := by
  constructor
  · intro h
    unfold ofDigit? at h
    split at h <;> cases h <;> rfl
  · rintro rfl
    cases op <;> rfl

end Operation

namespace Instruction

/-- The number that an instruction is written as. -/
def code : Instruction → Nat
  | .clear => 0x00E0
  | .ret => 0x00EE
  | .jump target => 0x1000 + target.val
  | .call target => 0x2000 + target.val
  | .skipIfByte x n => 0x3000 + 256 * x.val + n.toNat
  | .skipUnlessByte x n => 0x4000 + 256 * x.val + n.toNat
  | .skipIfEqual x y => 0x5000 + 256 * x.val + 16 * y.val
  | .set x n => 0x6000 + 256 * x.val + n.toNat
  | .increase x n => 0x7000 + 256 * x.val + n.toNat
  | .combine op x y => 0x8000 + 256 * x.val + 16 * y.val + op.digit
  | .skipUnlessEqual x y => 0x9000 + 256 * x.val + 16 * y.val
  | .setIndex target => 0xA000 + target.val
  | .jumpOffset target => 0xB000 + target.val
  | .random x n => 0xC000 + 256 * x.val + n.toNat
  | .draw x y rows => 0xD000 + 256 * x.val + 16 * y.val + rows.val
  | .skipIfKey x => 0xE000 + 256 * x.val + 0x9E
  | .skipUnlessKey x => 0xE000 + 256 * x.val + 0xA1
  | .getDelay x => 0xF000 + 256 * x.val + 0x07
  | .awaitKey x => 0xF000 + 256 * x.val + 0x0A
  | .setDelay x => 0xF000 + 256 * x.val + 0x15
  | .setSound x => 0xF000 + 256 * x.val + 0x18
  | .addIndex x => 0xF000 + 256 * x.val + 0x1E
  | .pointGlyph x => 0xF000 + 256 * x.val + 0x29
  | .writeDecimal x => 0xF000 + 256 * x.val + 0x33
  | .save x => 0xF000 + 256 * x.val + 0x55
  | .restore x => 0xF000 + 256 * x.val + 0x65

/-- The word that an instruction is written as. -/
def toWord (i : Instruction) : UInt16 := UInt16.ofNat i.code

/-- The instruction that a number is read as, by its hexadecimal digits. -/
def ofCode? (w : Nat) : Option Instruction :=
  let x : Register := ⟨w / 256 % 16, Nat.mod_lt _ (by decide)⟩
  let y : Register := ⟨w / 16 % 16, Nat.mod_lt _ (by decide)⟩
  let last : Nibble := ⟨w % 16, Nat.mod_lt _ (by decide)⟩
  let n : UInt8 := UInt8.ofNat (w % 256)
  let target : Address := ⟨w % 4096, Nat.mod_lt _ (by decide)⟩
  match w / 4096 with
  | 0x0 => if w = 0x00E0 then some .clear else if w = 0x00EE then some .ret else none
  | 0x1 => some (.jump target)
  | 0x2 => some (.call target)
  | 0x3 => some (.skipIfByte x n)
  | 0x4 => some (.skipUnlessByte x n)
  | 0x5 => if w % 16 = 0 then some (.skipIfEqual x y) else none
  | 0x6 => some (.set x n)
  | 0x7 => some (.increase x n)
  | 0x8 => (Operation.ofDigit? (w % 16)).map (.combine · x y)
  | 0x9 => if w % 16 = 0 then some (.skipUnlessEqual x y) else none
  | 0xA => some (.setIndex target)
  | 0xB => some (.jumpOffset target)
  | 0xC => some (.random x n)
  | 0xD => some (.draw x y last)
  | 0xE =>
    match w % 256 with
    | 0x9E => some (.skipIfKey x)
    | 0xA1 => some (.skipUnlessKey x)
    | _ => none
  | 0xF =>
    match w % 256 with
    | 0x07 => some (.getDelay x)
    | 0x0A => some (.awaitKey x)
    | 0x15 => some (.setDelay x)
    | 0x18 => some (.setSound x)
    | 0x1E => some (.addIndex x)
    | 0x29 => some (.pointGlyph x)
    | 0x33 => some (.writeDecimal x)
    | 0x55 => some (.save x)
    | 0x65 => some (.restore x)
    | _ => none
  | _ => none

/-- The instruction that a word is read as. -/
def ofWord? (w : UInt16) : Option Instruction := ofCode? w.toNat

/-- Reading a word, with the word itself as the reason to refuse it. -/
def decode (w : UInt16) : Except Error Instruction :=
  match ofWord? w with
  | some i => .ok i
  | none => .error (.unknownInstruction w)

/-! ## The two are inverse -/

theorem code_lt (i : Instruction) : i.code < 65536 := by
  cases i with
  | combine op x y => cases op <;> simp only [code, Operation.digit] <;> omega
  | skipIfByte x n | skipUnlessByte x n | set x n | increase x n | random x n =>
    have := n.toNat_lt
    simp only [code]; omega
  | _ => simp only [code]; omega

theorem toNat_toWord (i : Instruction) : i.toWord.toNat = i.code :=
  UInt16.toNat_ofNat_of_lt' (code_lt i)

/-- A leading digit and an address, taken apart again. -/
theorem fields_address (f : Nat) (t : Address) :
    (f * 4096 + t.val) / 4096 = f ∧ (f * 4096 + t.val) % 4096 = t.val := by omega

/-- A leading digit, a register and a byte, taken apart again. -/
theorem fields_byte (f : Nat) (x : Register) {n : Nat} (hn : n < 256) :
    (f * 4096 + 256 * x.val + n) / 4096 = f ∧ (f * 4096 + 256 * x.val + n) / 256 % 16 = x.val ∧
      (f * 4096 + 256 * x.val + n) % 256 = n := by omega

/-- A leading digit and two registers, taken apart again. -/
theorem fields_registers (f : Nat) (x y : Register) :
    (f * 4096 + 256 * x.val + 16 * y.val) / 4096 = f ∧
      (f * 4096 + 256 * x.val + 16 * y.val) / 256 % 16 = x.val ∧
      (f * 4096 + 256 * x.val + 16 * y.val) / 16 % 16 = y.val ∧
      (f * 4096 + 256 * x.val + 16 * y.val) % 16 = 0 := by omega

/-- Four digits, taken apart again. -/
theorem fields_digits (f : Nat) (x y : Register) {d : Nat} (hd : d < 16) :
    (f * 4096 + 256 * x.val + 16 * y.val + d) / 4096 = f ∧
      (f * 4096 + 256 * x.val + 16 * y.val + d) / 256 % 16 = x.val ∧
      (f * 4096 + 256 * x.val + 16 * y.val + d) / 16 % 16 = y.val ∧
      (f * 4096 + 256 * x.val + 16 * y.val + d) % 16 = d := by omega

/-- What is written is read back. -/
theorem ofCode?_code (i : Instruction) : ofCode? i.code = some i := by
  cases i with
  | clear => rfl
  | ret => rfl
  | jump t => simp [ofCode?, code, fields_address 1 t]
  | call t => simp [ofCode?, code, fields_address 2 t]
  | skipIfByte x n => simp [ofCode?, code, fields_byte 3 x n.toNat_lt]
  | skipUnlessByte x n => simp [ofCode?, code, fields_byte 4 x n.toNat_lt]
  | skipIfEqual x y => simp [ofCode?, code, fields_registers 5 x y]
  | set x n => simp [ofCode?, code, fields_byte 6 x n.toNat_lt]
  | increase x n => simp [ofCode?, code, fields_byte 7 x n.toNat_lt]
  | combine op x y =>
    have hd : op.digit < 16 := by cases op <;> decide
    simp [ofCode?, code, fields_digits 8 x y hd, Operation.ofDigit?_eq_some_iff.2 rfl]
  | skipUnlessEqual x y => simp [ofCode?, code, fields_registers 9 x y]
  | setIndex t => simp [ofCode?, code, fields_address 10 t]
  | jumpOffset t => simp [ofCode?, code, fields_address 11 t]
  | random x n => simp [ofCode?, code, fields_byte 12 x n.toNat_lt]
  | draw x y rows => simp [ofCode?, code, fields_digits 13 x y rows.isLt]
  | skipIfKey x => simp [ofCode?, code, fields_byte 14 x (by decide : 0x9E < 256)]
  | skipUnlessKey x => simp [ofCode?, code, fields_byte 14 x (by decide : 0xA1 < 256)]
  | getDelay x => simp [ofCode?, code, fields_byte 15 x (by decide : 0x07 < 256)]
  | awaitKey x => simp [ofCode?, code, fields_byte 15 x (by decide : 0x0A < 256)]
  | setDelay x => simp [ofCode?, code, fields_byte 15 x (by decide : 0x15 < 256)]
  | setSound x => simp [ofCode?, code, fields_byte 15 x (by decide : 0x18 < 256)]
  | addIndex x => simp [ofCode?, code, fields_byte 15 x (by decide : 0x1E < 256)]
  | pointGlyph x => simp [ofCode?, code, fields_byte 15 x (by decide : 0x29 < 256)]
  | writeDecimal x => simp [ofCode?, code, fields_byte 15 x (by decide : 0x33 < 256)]
  | save x => simp [ofCode?, code, fields_byte 15 x (by decide : 0x55 < 256)]
  | restore x => simp [ofCode?, code, fields_byte 15 x (by decide : 0x65 < 256)]

/-- What is read was written that way. -/
theorem code_of_ofCode? {w : Nat} {i : Instruction} (h : ofCode? w = some i) : i.code = w := by
  unfold ofCode? at h
  split at h
  case h_1 => grind [code]
  case h_9 hf =>
    obtain ⟨op, hop, rfl⟩ := Option.map_eq_some_iff.1 h
    have hd := Operation.ofDigit?_eq_some_iff.1 hop
    simp only [code]
    omega
  case h_6 | h_10 =>
    split at h
    · cases h; simp only [code]; omega
    · cases h
  case h_15 | h_16 =>
    split at h <;> cases h <;> simp only [code] <;> omega
  case h_17 => cases h
  all_goals
    cases h
    simp only [code, UInt8.toNat_ofNat', Nat.reducePow]
    omega

/-- **Reading undoes writing, and reads nothing else.** -/
theorem ofWord?_eq_some_iff {w : UInt16} {i : Instruction} : ofWord? w = some i ↔ i.toWord = w := by
  constructor
  · intro h
    apply UInt16.toNat_inj.1
    rw [toNat_toWord, code_of_ofCode? h]
  · rintro rfl
    simp only [ofWord?, toNat_toWord, ofCode?_code]

theorem decode_eq_ok_iff {w : UInt16} {i : Instruction} : decode w = .ok i ↔ i.toWord = w := by
  rw [← ofWord?_eq_some_iff, decode]
  cases ofWord? w with
  | none => simp
  | some j => simp

/-- A word is refused if nothing is written that way. -/
theorem decode_eq_error_iff {w : UInt16} {e : Error} :
    decode w = .error e ↔ (∀ i : Instruction, i.toWord ≠ w) ∧ e = .unknownInstruction w := by
  cases hd : decode w with
  | ok i =>
    refine iff_of_false nofun fun h => h.1 i ?_
    exact decode_eq_ok_iff.1 hd
  | error d =>
    have hw : ∀ i : Instruction, i.toWord ≠ w := by
      intro i hi
      rw [decode_eq_ok_iff.2 hi] at hd
      cases hd
    have he : d = .unknownInstruction w := by
      rw [decode] at hd
      split at hd
      · cases hd
      · exact (Except.error.inj hd).symm
    rw [he, Except.error.injEq, eq_comm]
    exact ⟨fun h => ⟨hw, h⟩, fun h => h.2⟩

end Instruction

end ChipEight
