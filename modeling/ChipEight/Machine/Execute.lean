import ChipEight.Display.Sprite
import ChipEight.Host
import ChipEight.Machine.Basic

/-!
# What instructions do

An instruction is looked at twice. First `obstacle?` decides whether anything stands in its way:
a stack that is full or empty, or memory that ends too early. Only if nothing does, `perform`
carries it out, and that cannot fail. So an instruction that is refused has changed nothing,
because nothing has been done yet.

Whatever `perform` does, it leaves the program counter where execution goes on: at the next
instruction, at the one after it, or wherever a jump leads. While a key is awaited it stays.
-/

namespace ChipEight

/-- The error for reaching from `start` over `count` bytes, if that goes beyond memory. It names
the first address from `start` on that there is no memory for. A reach over no bytes at all may
begin where memory ends, but not behind it. -/
def Memory.overrun? (size : Nat) (start : UInt16) (count : Nat) : Option Error :=
  if start.toNat + count ≤ size then none else some (.addressOutOfRange (max start.toNat size))

/-- The memory with a sprite drawn on its display. -/
def Memory.draw {size : Nat} (mem : Memory size) (x y : Nat) (sprite : List UInt8) : Memory size :=
  { mem with display := mem.display.draw x y sprite }

/-- The memory with its display cleared. -/
def Memory.clear {size : Nat} (mem : Memory size) : Memory size := { mem with display := .blank }

/-- The sum of two words, which comes round at 65536, and whether it has. -/
def addOverflowing (a b : UInt16) : UInt16 × Bool := (a + b, decide (65536 ≤ a.toNat + b.toNat))

/-- The sum of two words, which stays at 65535. -/
def addSaturating (a b : UInt16) : UInt16 :=
  if 65536 ≤ a.toNat + b.toNat then 65535 else a + b

/-- The three decimal digits of a byte. -/
def decimalDigits (b : UInt8) : List UInt8 := [b / 100, b / 10 % 10, b % 10]

namespace Machine

variable {size : Nat} {σ : Type}

/-- What stops an instruction, if anything does. -/
def obstacle? (m : Machine size) : Instruction → Option Error
  | .ret => if m.stack.isEmpty then some .stackEmpty else none
  | .call _ => if m.stack.length < Layout.stackDepth then none else some .stackFull
  | i => i.span?.bind (Memory.overrun? size m.index)

/-- Go on with the next instruction. -/
def advance (m : Machine size) : Machine size := { m with pc := m.pc + 2 }

/-- Go on with the next instruction, or leave it out. -/
def skipIf (m : Machine size) (c : Bool) : Machine size :=
  { m with pc := m.pc + if c then 4 else 2 }

/-- Put one or zero into the flag register. -/
def putFlag (m : Machine size) (c : Bool) : Machine size := m.put .flag c.toUInt8

/-- Combine two registers. The flag is written last, so it stays where VX is the flag register. -/
def combine (m : Machine size) (op : Operation) (x y : Register) : Machine size :=
  let a := m.v x
  let b := m.v y
  let m := m.put x (op.value a b)
  match op.flag? a b with
  | none => m
  | some c => m.putFlag c

/-- Draw the `rows` bytes at the index register at (VX, VY), and flag a collision. -/
def drawSprite (m : Machine size) (x y : Register) (rows : Nibble) : Machine size :=
  let sprite := m.memory.read m.index.toNat rows.val
  let column := (m.v x).toNat
  let row := (m.v y).toNat
  let hit := m.memory.display.collides column row sprite
  { m with
    memory := m.memory.draw column row sprite
    registers := m.registers.set Register.flag hit.toUInt8 }

/-- Add VX to the index register, which stays at its greatest value rather than come round. The
flag tells that the sum is no address: it would have come round, or memory ends before it. -/
def addIndex (m : Machine size) (x : Register) : Machine size :=
  let offset := (m.v x).toUInt16
  let (sum, wrapped) := addOverflowing m.index offset
  { m with
    index := addSaturating m.index offset
    registers := m.registers.set Register.flag (wrapped || decide (size ≤ sum.toNat)).toUInt8 }

/-- Replace V0 to VX by the bytes at the index register. -/
def restore (m : Machine size) (x : Register) : Machine size :=
  { m with
    registers := Vector.ofFn fun k =>
      if k ≤ x then m.memory.byte (m.index.toNat + k.val) else m.v k }

/-- Carry out an instruction that nothing stands in the way of. -/
def perform [Host σ] (m : Machine size) (h : σ) : Instruction → Machine size × σ
  | .clear => ({ m with memory := m.memory.clear, pc := m.pc + 2 }, h)
  | .ret => ({ m with pc := m.stack.headD m.pc, stack := m.stack.tail }, h)
  | .jump t => ({ m with pc := UInt16.ofNat t.val }, h)
  | .call t => ({ m with pc := UInt16.ofNat t.val, stack := (m.pc + 2) :: m.stack }, h)
  | .skipIfByte x n => (m.skipIf (m.v x == n), h)
  | .skipUnlessByte x n => (m.skipIf (m.v x != n), h)
  | .skipIfEqual x y => (m.skipIf (m.v x == m.v y), h)
  | .set x n => ((m.put x n).advance, h)
  | .increase x n => ((m.put x (m.v x + n)).advance, h)
  | .combine op x y => ((m.combine op x y).advance, h)
  | .skipUnlessEqual x y => (m.skipIf (m.v x != m.v y), h)
  | .setIndex t => ({ m with index := UInt16.ofNat t.val, pc := m.pc + 2 }, h)
  | .jumpOffset t => ({ m with pc := UInt16.ofNat (t.val + (m.v .offset).toNat) }, h)
  | .random x n =>
    let (byte, h) := Host.random h
    ((m.put x (byte &&& n)).advance, h)
  | .draw x y rows => ((m.drawSprite x y rows).advance, h)
  | .skipIfKey x =>
    let (keypad, h) := Host.keys h
    (m.skipIf (keypad.isDown (Register.ofByte (m.v x))), h)
  | .skipUnlessKey x =>
    let (keypad, h) := Host.keys h
    (m.skipIf (!keypad.isDown (Register.ofByte (m.v x))), h)
  | .getDelay x => ((m.put x m.delay.value).advance, h)
  | .awaitKey x => ({ m with awaiting := some x }, h)
  | .setDelay x => ({ m with delay := ⟨m.v x⟩, pc := m.pc + 2 }, h)
  | .setSound x => ({ m with sound := ⟨m.v x⟩, pc := m.pc + 2 }, h)
  | .addIndex x => ((m.addIndex x).advance, h)
  | .pointGlyph x => ({ m with index := Font.glyphAddress (m.v x), pc := m.pc + 2 }, h)
  | .writeDecimal x =>
    ({ m with
        memory := m.memory.write m.index.toNat (decimalDigits (m.v x))
        pc := m.pc + 2 }, h)
  | .save x =>
    ({ m with
        memory := m.memory.write m.index.toNat (m.registers.toList.take (x.val + 1))
        pc := m.pc + 2 }, h)
  | .restore x => ((m.restore x).advance, h)

end Machine

end ChipEight
