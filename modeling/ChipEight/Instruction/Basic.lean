/-!
# Instructions

The thirty-four instructions, named for what they do. Operands carry their range in their
type: a register is one of sixteen, an address has twelve bits, a sprite has at most fifteen
rows. A value of `Instruction` is therefore always one that some word encodes.

The nine operations that work on two registers and differ only in what they compute share one
constructor; what they compute is `Operation.value` and `Operation.flag`.
-/

namespace ChipEight

/-- One of the registers V0 to VF. -/
abbrev Register := Fin 16

/-- An address as an instruction can hold it, of twelve bits. -/
abbrev Address := Fin 4096

/-- Four bits. -/
abbrev Nibble := Fin 16

namespace Register

/-- The register that carries, borrows and collisions are reported in. -/
def flag : Register := 15

/-- The register that offsets a jump. -/
def offset : Register := 0

/-- The register whose number is the low nibble of `b`. -/
def ofByte (b : UInt8) : Register := ⟨b.toNat % 16, Nat.mod_lt _ (by decide)⟩

end Register

/-- What an instruction on two registers computes from the values `a` of VX and `b` of VY. -/
inductive Operation where
  /-- Take `b`. -/
  | move
  /-- Bitwise or. -/
  | or
  /-- Bitwise and. -/
  | and
  /-- Bitwise exclusive or. -/
  | xor
  /-- The sum, flagged on a carry. -/
  | add
  /-- `a` less `b`, flagged when nothing was borrowed. -/
  | sub
  /-- Half of `a`, flagged with the bit that drops out. -/
  | shiftRight
  /-- `b` less `a`, flagged when nothing was borrowed. -/
  | subFrom
  /-- Twice `a`, flagged with the bit that drops out. -/
  | shiftLeft
  deriving DecidableEq

namespace Operation

/-- The result for VX. Sums and differences wrap; the shifts do not look at `b`. -/
def value (op : Operation) (a b : UInt8) : UInt8 :=
  match op with
  | .move => b
  | .or => a ||| b
  | .and => a &&& b
  | .xor => a ^^^ b
  | .add => a + b
  | .sub => a - b
  | .shiftRight => a >>> 1
  | .subFrom => b - a
  | .shiftLeft => a <<< 1

/-- The result for the flag register, where there is one. -/
def flag? (op : Operation) (a b : UInt8) : Option Bool :=
  match op with
  | .move | .or | .and | .xor => none
  | .add => some (256 ≤ a.toNat + b.toNat)
  | .sub => some (b ≤ a)
  | .shiftRight => some (a &&& 1 = 1)
  | .subFrom => some (a ≤ b)
  | .shiftLeft => some (128 ≤ a)

end Operation

/-- What one word of a program asks for. -/
inductive Instruction where
  /-- Switch every pixel off. -/
  | clear
  /-- Return from a subroutine. -/
  | ret
  /-- Go to an address. -/
  | jump (target : Address)
  /-- Enter the subroutine at an address. -/
  | call (target : Address)
  /-- Skip the next instruction if VX holds `n`. -/
  | skipIfByte (x : Register) (n : UInt8)
  /-- Skip the next instruction unless VX holds `n`. -/
  | skipUnlessByte (x : Register) (n : UInt8)
  /-- Skip the next instruction if VX and VY are equal. -/
  | skipIfEqual (x y : Register)
  /-- Put `n` into VX. -/
  | set (x : Register) (n : UInt8)
  /-- Add `n` to VX, without a flag. -/
  | increase (x : Register) (n : UInt8)
  /-- Combine VX and VY into VX. -/
  | combine (op : Operation) (x y : Register)
  /-- Skip the next instruction unless VX and VY are equal. -/
  | skipUnlessEqual (x y : Register)
  /-- Put an address into the index register. -/
  | setIndex (target : Address)
  /-- Go to an address offset by V0. -/
  | jumpOffset (target : Address)
  /-- Put a random byte, masked with `n`, into VX. -/
  | random (x : Register) (n : UInt8)
  /-- Draw a sprite of `rows` bytes at (VX, VY). -/
  | draw (x y : Register) (rows : Nibble)
  /-- Skip the next instruction if the key named by VX is down. -/
  | skipIfKey (x : Register)
  /-- Skip the next instruction unless the key named by VX is down. -/
  | skipUnlessKey (x : Register)
  /-- Put the delay timer into VX. -/
  | getDelay (x : Register)
  /-- Wait for a key and put it into VX. -/
  | awaitKey (x : Register)
  /-- Set the delay timer to VX. -/
  | setDelay (x : Register)
  /-- Set the sound timer to VX. -/
  | setSound (x : Register)
  /-- Add VX to the index register. -/
  | addIndex (x : Register)
  /-- Point the index register at the glyph of the digit in VX. -/
  | pointGlyph (x : Register)
  /-- Write the three decimal digits of VX to memory. -/
  | writeDecimal (x : Register)
  /-- Write V0 to VX to memory. -/
  | save (x : Register)
  /-- Read V0 to VX from memory. -/
  | restore (x : Register)
  deriving DecidableEq

/-- How many bytes of memory, from the index register on, an instruction has to have there;
`none` for one that does not use the index register as an address. -/
def Instruction.span? : Instruction → Option Nat
  | .draw _ _ rows => some rows.val
  | .writeDecimal _ => some 3
  | .save x | .restore x => some (x.val + 1)
  | _ => none

end ChipEight
