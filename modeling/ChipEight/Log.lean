import ChipEight.Hex
import ChipEight.Instruction.Listing
import ChipEight.Keypad
import ChipEight.Machine.Basic

/-!
# The log

What a machine has to say about its work, for somebody who looks for a fault in a program. Each
record has a level and a text. Records are made where the work is done, with what is at hand
there; where they go is not the machine's business.
-/

namespace ChipEight

/-- How important a record is. -/
inductive Level where
  | trace
  | debug
  | warn
  deriving DecidableEq

/-- The name of a level. -/
def Level.name : Level → String
  | .trace => "TRACE"
  | .debug => "DEBUG"
  | .warn => "WARN"

/-- A text as one line of a log. -/
def Level.line (level : Level) (text : String) : String := level.name ++ " " ++ text

/-- One thing worth noting. -/
inductive Record where
  /-- A program of `length` bytes was loaded where `capacity` would fit. -/
  | loaded (length capacity : Nat)
  /-- An instruction is about to be executed. -/
  | dispatched (pc word : UInt16) (i : Instruction)
  /-- An instruction began to wait for a key. -/
  | waiting (pc : UInt16) (x : Register)
  /-- A key ended a wait. -/
  | keyStored (key : Key) (x : Register)
  /-- A step failed. -/
  | failed (pc : UInt16) (e : Error)
  deriving DecidableEq

namespace Record

/-- The level of a record: a line for every instruction is more than one usually wants. -/
def level : Record → Level
  | .loaded _ _ | .waiting _ _ | .keyStored _ _ => .debug
  | .dispatched _ _ _ => .trace
  | .failed _ _ => .warn

/-- A program counter as the log shows it, in at least three digits. -/
def place (pc : UInt16) : String := "0x" ++ Hex.lower 3 pc.toNat

/-- What a record says. -/
def text : Record → String
  | .loaded length capacity =>
    "loaded " ++ toString length ++ " of " ++ toString capacity ++ " bytes of program memory"
  | .dispatched pc word i => place pc ++ ": " ++ Hex.upper 4 word.toNat ++ " " ++ i.listing
  | .waiting pc x => "pc=" ++ place pc ++ ": waiting for a key for V" ++ Hex.upper 1 x.val
  | .keyStored key x =>
    "key " ++ Hex.upper 1 key.val ++ " pressed, stored in V" ++ Hex.upper 1 x.val
  | .failed pc e => "pc=" ++ place pc ++ ": " ++ e.message

/-- A record as one line of a log. -/
def line (r : Record) : String := r.level.line r.text

/-- The record of a machine that has just been loaded. -/
def ofLoad {size : Nat} (m : Machine size) : Record :=
  .loaded m.programLength (Layout.capacity size)

end Record

end ChipEight
