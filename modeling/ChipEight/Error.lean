import ChipEight.Hex

/-!
# What can go wrong

One type for every refusal of the machine. The first four arise while a program runs and
leave the machine as it was, so whoever drives it decides whether to stop; the last three
arise before there is a machine at all.
-/

namespace ChipEight

/-- A condition that a machine reports instead of going on. -/
inductive Error where
  /-- A fetched word is no instruction. -/
  | unknownInstruction (word : UInt16)
  /-- A call while every slot of the call stack is taken. -/
  | stackFull
  /-- A return outside of any subroutine. -/
  | stackEmpty
  /-- An access reaches `address`, which memory does not have. -/
  | addressOutOfRange (address : Nat)
  /-- A program of `length` bytes where `capacity` bytes are set aside for one. -/
  | programTooLarge (length capacity : Nat)
  /-- A machine was asked for without a host. -/
  | missingHost
  /-- A machine was asked for without a program. -/
  | missingProgram
  deriving DecidableEq

/-- The text shown for an error. Addresses and words have at least four digits. -/
def Error.message : Error → String
  | .unknownInstruction word => "unknown operation code 0x" ++ Hex.lower 4 word.toNat
  | .stackFull => "cannot enter subroutine, stack is full"
  | .stackEmpty => "cannot return, not in subroutine"
  | .addressOutOfRange address => "address 0x" ++ Hex.lower 4 address ++ " is out of address space"
  | .programTooLarge length capacity =>
    "program of " ++ toString length ++ " bytes exceeds program memory of " ++
      toString capacity ++ " bytes"
  | .missingHost => "context not provided"
  | .missingProgram => "program not provided"

end ChipEight
