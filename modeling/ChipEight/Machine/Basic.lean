import ChipEight.Error
import ChipEight.Font
import ChipEight.Instruction.Basic
import ChipEight.Memory
import ChipEight.Timer

/-!
# The machine

All of a machine's state is in one value, and its size of memory is in its type. The host is
not part of it: it is handed to whatever may have to ask it something.

`load` is where machines come from. It puts the font at the start of memory and the program
above the font's part, and refuses a program that would reach into the reserved bytes.
-/

namespace ChipEight

/-- The registers V0 to VF. -/
abbrev Registers := Vector UInt8 16

/-- A machine with `size` bytes of memory. -/
structure Machine (size : Nat) where
  registers : Registers
  /-- The index register, through which instructions reach memory. -/
  index : UInt16
  /-- Where the next instruction is. -/
  pc : UInt16
  memory : Memory size
  /-- Where to go on after each subroutine entered, the innermost first. -/
  stack : List UInt16
  delay : Timer
  sound : Timer
  /-- The register that a key is awaited for, if one is. -/
  awaiting : Option Register
  /-- The length of the program that was loaded. -/
  programLength : Nat

/-- Memory that holds the font and a program, and zero everywhere else. -/
def Memory.initial (size : Nat) (program : Array UInt8) : Memory size where
  low := Vector.ofFn fun a =>
    if h : a.val < 80 then Font.table[a.val]
    else if a.val < Layout.programStart then 0
    else program.getD (a.val - Layout.programStart) 0
  display := .blank

namespace Machine

variable {size : Nat}

/-- A machine about to execute the first instruction of `program`. -/
def load (size : Nat) (program : Array UInt8) : Except Error (Machine size) :=
  if program.size ≤ Layout.capacity size then
    .ok {
      registers := Vector.replicate 16 0
      index := 0
      pc := UInt16.ofNat Layout.programStart
      memory := .initial size program
      stack := []
      delay := .initial
      sound := .initial
      awaiting := none
      programLength := program.size }
  else
    .error (.programTooLarge program.size (Layout.capacity size))

/-- What the display shows. -/
def display (m : Machine size) : Display := m.memory.display

/-- The first address after the program. -/
def programEnd (m : Machine size) : Nat := Layout.programStart + m.programLength

/-- The value of register VX. -/
def v (m : Machine size) (x : Register) : UInt8 := m.registers[x]

/-- Put a byte into a register. -/
def put (m : Machine size) (x : Register) (b : UInt8) : Machine size :=
  { m with registers := m.registers.set x b }

/-- The value of register VX by the number of the register, of which only the low nibble
counts. -/
def register (m : Machine size) (x : UInt8) : UInt8 := m.v (Register.ofByte x)

/-- One tick of both timers, as the host gives them sixty times a second. -/
def tick (m : Machine size) : Machine size :=
  { m with delay := m.delay.next, sound := m.sound.next }

/-- What a tick reports: the state of the sound timer, for a beeper. -/
def tickReport (m : Machine size) : Tick := m.sound.report

end Machine

end ChipEight
